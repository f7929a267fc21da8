import ThinkLocal.Foundation.Machine
import ThinkLocal.Vault.CredentialVault

/-!
# Is a revocation final?

The vault over its calls.  A revoked name has no row as long as nobody stores it again; `store` does
not look at the mark.
-/

namespace ThinkLocal.Vault

open Foundation

namespace CredentialVault

variable {ciphers : Ciphers} {vault : CredentialVault} {name : String} {now : Int}

/-! ## What the calls do to a name -/

theorem get_cleanExpired_of_none (h : vault.credentials.get name = none) (now : Int) :
    (vault.cleanExpired now).credentials.get name = none := by
  rw [cleanExpired, InsertionMap.get_filter, h]
  rfl

/-- Without a row there is no value. -/
theorem retrieve_of_none (h : vault.credentials.get name = none) :
    vault.retrieve ciphers name now = (vault.cleanExpired now, some none) := by
  rw [retrieve, get_cleanExpired_of_none h now]

/-- A row without an end is retrieved. -/
theorem retrieve_of_unlimited {row : CredentialRow} {value : String}
    (hrow : vault.credentials.get name = some row) (hunlimited : row.expiresAt = none)
    (hdecrypt : ciphers.decrypt row.encryptedValue row.nonce = some value) (now : Int) :
    ∃ credential, (vault.retrieve ciphers name now).2 = some (some credential) ∧
      credential.value = value := by
  have hclean : (vault.cleanExpired now).credentials.get name = some row := by
    rw [cleanExpired, InsertionMap.get_filter, hrow]
    simp [hunlimited]
  rw [retrieve]
  simp only [hclean, hunlimited, hdecrypt]
  exact ⟨_, rfl, rfl⟩

theorem revoked_retrieve : (vault.retrieve ciphers name now).1.revoked = vault.revoked := by
  unfold retrieve
  dsimp only
  split
  · rfl
  · split_ifs <;> rfl

/-- A retrieval makes no row. -/
theorem get_retrieve_of_none {other : String} (h : vault.credentials.get name = none) :
    (vault.retrieve ciphers other now).1.credentials.get name = none := by
  have hclean := get_cleanExpired_of_none h now
  unfold retrieve
  dsimp only
  split
  · exact hclean
  · next row hrow =>
      split_ifs
      · exact hclean
      · have hne : name ≠ other := by
          rintro rfl
          rw [hclean] at hrow
          cases hrow
        rw [InsertionMap.get_set_of_ne _ _ hne]
        exact hclean

theorem get_delete_of_none {other : String} (h : vault.credentials.get name = none) :
    (vault.credentials.delete other).get name = none := by
  rw [InsertionMap.get_delete]
  split_ifs
  · rfl
  · exact h

theorem get_store_of_ne {value : String} {options : StoreOptions} {id random other : String}
    (hne : name ≠ other) (h : vault.credentials.get name = none) :
    (vault.store ciphers other value options now id random).1.credentials.get name = none := by
  unfold store
  split
  · exact h
  · dsimp only
    rw [InsertionMap.get_set_of_ne _ _ hne, InsertionMap.get_filter, h]
    rfl

theorem revoked_store {value : String} {options : StoreOptions} {id random : String} :
    (vault.store ciphers name value options now id random).1.revoked = vault.revoked := by
  unfold store
  split <;> rfl

end CredentialVault

/-! ## Runs -/

/-- The calls of a vault, with what they draw and the clock they read. -/
inductive VaultAction
  | store (name value : String) (options : StoreOptions) (now : Int) (id random : String)
  | retrieve (name : String) (now : Int)
  | remove (name : String)
  | revoke (name reason : String) (now : Int)
  | list (category : Option String) (now : Int)
  | executeBrokered (name : String) (action : String → Except String String) (now : Int)
  | secretRequest (request : CredentialVault.SecretRequest) (senderIsPaired : Bool) (now : Int)
      (id random : String)

open CredentialVault

def vaultStep (ciphers : Ciphers) (vault : CredentialVault) : VaultAction → CredentialVault
  | .store name value options now id random =>
      (vault.store ciphers name value options now id random).1
  | .retrieve name now => (vault.retrieve ciphers name now).1
  | .remove name => (vault.remove name).1
  | .revoke name reason now => (vault.revoke name reason now).1
  | .list category now => (vault.list category now).1
  | .executeBrokered name action now => (vault.executeBrokered ciphers name action now).1
  | .secretRequest request senderIsPaired now id random =>
      (vault.secretRequest ciphers request senderIsPaired now id random).1

/-- A vault from its empty tables on. -/
def vaultMachine (ciphers : Ciphers) : Machine CredentialVault VaultAction where
  init := .empty
  step := fun vault action => some (vaultStep ciphers vault action)

/-- Nothing is stored under a name that has been revoked. -/
def KeepsRevoked (vault : CredentialVault) : VaultAction → Prop
  | .store name .. => vault.isRevoked name = false
  | _ => True

variable {ciphers : Ciphers} {vault : CredentialVault} {name : String} {action : VaultAction}

/-- The handler leaves the first two tables as its retrieval does. -/
theorem secretRequest_tables (request : SecretRequest) (senderIsPaired : Bool) (now : Int)
    (id random : String) :
    let retrieved := (vault.createApprovalRequest request.sender request.credentialName
      request.reason now id).retrieve ciphers request.credentialName now
    let after := (vault.secretRequest ciphers request senderIsPaired now id random).1
    after.credentials = retrieved.1.credentials ∧ after.revoked = retrieved.1.revoked := by
  unfold secretRequest
  dsimp only
  split
  · next hretrieve => rw [hretrieve]; exact ⟨rfl, rfl⟩
  · next hretrieve => rw [hretrieve]; exact ⟨rfl, rfl⟩
  · next hretrieve =>
      rw [hretrieve]
      split_ifs <;> exact ⟨rfl, rfl⟩

/-- Only `store` makes a row. -/
theorem get_vaultStep_of_none (h : vault.credentials.get name = none)
    (hallowed : KeepsRevoked vault action) (hrevoked : vault.isRevoked name = true) :
    (vaultStep ciphers vault action).credentials.get name = none := by
  cases action with
  | store other value options now id random =>
      refine get_store_of_ne ?_ h
      rintro rfl
      rw [KeepsRevoked, hrevoked] at hallowed
      cases hallowed
  | retrieve other now => exact get_retrieve_of_none h
  | remove other => exact get_delete_of_none h
  | revoke other reason now =>
      by_cases hhas : vault.credentials.has other = true
      · rw [vaultStep, revoke, if_pos hhas]
        exact get_delete_of_none h
      · rw [vaultStep, revoke, if_neg hhas]
        exact h
  | list category now => exact get_cleanExpired_of_none h now
  | executeBrokered other action now => exact get_retrieve_of_none h
  | secretRequest request senderIsPaired now id random =>
      rw [vaultStep, (secretRequest_tables request senderIsPaired now id random).1]
      exact get_retrieve_of_none h

theorem isRevoked_of_revoked_eq {after : CredentialVault} (h : after.revoked = vault.revoked) :
    after.isRevoked name = vault.isRevoked name := by
  rw [isRevoked, isRevoked, h]

/-- A revocation that succeeds marks the name, takes its row and keeps the other marks. -/
theorem revoke_of_has {reason : String} {now : Int} (h : vault.credentials.has name = true) :
    (vault.revoke name reason now).1.credentials.get name = none ∧
      ∀ other, (vault.revoke name reason now).1.isRevoked other = true ↔
        vault.isRevoked other = true ∨ other = name := by
  rw [revoke, if_pos h]
  refine ⟨InsertionMap.get_delete_self _ _, fun other => ?_⟩
  unfold isRevoked InsertionMap.has
  dsimp only
  split_ifs with hmarked
  · constructor
    · exact .inl
    · rintro (hother | rfl)
      · exact hother
      · exact hmarked
  · rw [InsertionMap.get_set]
    by_cases hother : other = name
    · simp [hother]
    · simp [hother]

/-- A mark is left by a revocation only. -/
theorem isRevoked_vaultStep (ciphers : Ciphers) (vault : CredentialVault) (action : VaultAction)
    (other : String) :
    (vaultStep ciphers vault action).isRevoked other = vault.isRevoked other ∨
      ∃ name reason now, action = .revoke name reason now ∧
        vault.credentials.has name = true := by
  cases action with
  | store name value options now id random =>
      exact .inl (isRevoked_of_revoked_eq revoked_store)
  | retrieve name now => exact .inl (isRevoked_of_revoked_eq revoked_retrieve)
  | remove name => exact .inl rfl
  | revoke name reason now =>
      by_cases hhas : vault.credentials.has name = true
      · exact .inr ⟨name, reason, now, rfl, hhas⟩
      · rw [vaultStep, revoke, if_neg hhas]
        exact .inl rfl
  | list category now => exact .inl rfl
  | executeBrokered name action now => exact .inl (isRevoked_of_revoked_eq revoked_retrieve)
  | secretRequest request senderIsPaired now id random =>
      refine .inl (isRevoked_of_revoked_eq ?_)
      rw [vaultStep, (secretRequest_tables request senderIsPaired now id random).2]
      exact revoked_retrieve

/-- A mark stays. -/
theorem isRevoked_vaultStep_of_isRevoked (h : vault.isRevoked name = true) :
    (vaultStep ciphers vault action).isRevoked name = true := by
  rcases isRevoked_vaultStep ciphers vault action name with hsame | ⟨other, reason, now, rfl, hhas⟩
  · rw [hsame, h]
  · exact ((revoke_of_has hhas).2 name).mpr (.inl h)

/-- A revoked name has no row. -/
def Erased (vault : CredentialVault) : Prop :=
  ∀ name, vault.isRevoked name = true → vault.credentials.get name = none

theorem erased_vaultStep (herased : Erased vault) (hallowed : KeepsRevoked vault action) :
    Erased (vaultStep ciphers vault action) := by
  intro name hrevoked
  by_cases hbefore : vault.isRevoked name = true
  · exact get_vaultStep_of_none (herased name hbefore) hallowed hbefore
  · rcases isRevoked_vaultStep ciphers vault action name with hsame | ⟨other, reason, now, rfl, hhas⟩
    · exact absurd (hsame.symm.trans hrevoked) hbefore
    · obtain ⟨hrow, hmarks⟩ := revoke_of_has hhas
      obtain hmark | rfl := (hmarks name).mp hrevoked
      · exact absurd hmark hbefore
      · exact hrow

theorem erased_of_reachable
    (h : (vaultMachine ciphers).ReachableUnder KeepsRevoked vault) : Erased vault := by
  refine h.invariant ?_ ?_
  · intro name hrevoked
    rfl
  · intro vault action after herased hallowed hstep
    obtain rfl := Option.some.inj hstep
    exact erased_vaultStep herased hallowed

theorem isRevoked_runFrom {actions : List VaultAction} {after : CredentialVault}
    (hrun : (vaultMachine ciphers).runFrom vault actions = some after)
    (h : vault.isRevoked name = true) : after.isRevoked name = true := by
  induction actions generalizing vault with
  | nil =>
      obtain rfl := Option.some.inj hrun
      exact h
  | cons action actions ih =>
      obtain ⟨next, hnext, hrest⟩ := Option.bind_eq_some_iff.mp hrun
      obtain rfl := Option.some.inj hnext
      exact ih hrest (isRevoked_vaultStep_of_isRevoked h)

/-! ## What a revocation promises -/

/-- Nobody gets the value of the name. -/
structure Final (ciphers : Ciphers) (vault : CredentialVault) (name : String) : Prop where
  retrieve : ∀ now, (vault.retrieve ciphers name now).2 = some none
  executeBrokered : ∀ action now, ∃ error,
    (vault.executeBrokered ciphers name action now).2 = some ⟨false, none, some error⟩
  secretRequest : ∀ request senderIsPaired now id random, request.credentialName = name →
    ∃ response, (vault.secretRequest ciphers request senderIsPaired now id random).2 =
      some response ∧ response.status = .denied ∧ response.sealedValue = none

/-- `retrieve` and `executeBrokered` give the same values. -/
def Agree (ciphers : Ciphers) (vault : CredentialVault) : Prop :=
  ∀ name now value,
    (∃ credential, (vault.retrieve ciphers name now).2 = some (some credential) ∧
      credential.value = value) ↔
      (vault.brokeredValue ciphers name now).2 = some (.ok value)

theorem final_of_none (h : vault.credentials.get name = none) : Final ciphers vault name where
  retrieve := fun now => by rw [retrieve_of_none h]
  executeBrokered := fun action now => by
    rw [CredentialVault.executeBrokered, brokeredValue, retrieve_of_none h]
    exact ⟨_, rfl⟩
  secretRequest := by
    rintro request senderIsPaired now id random rfl
    have hcreated : (vault.createApprovalRequest request.sender request.credentialName
        request.reason now id).credentials.get request.credentialName = none := h
    rw [CredentialVault.secretRequest, retrieve_of_none hcreated]
    exact ⟨_, rfl, rfl, rfl⟩

theorem agree_of_erased (h : Erased vault) : Agree ciphers vault := by
  intro name now value
  have hsame : (vault.retrieve ciphers name now).1.isRevoked name = vault.isRevoked name :=
    isRevoked_of_revoked_eq revoked_retrieve
  rw [brokeredValue]
  dsimp only
  rw [hsame]
  rcases hretrieve : (vault.retrieve ciphers name now).2 with _ | _ | credential
  · simp
  · simp
  · have hunmarked : vault.isRevoked name = false := by
      by_contra hmarked
      have hnone := h name (Bool.eq_true_of_not_eq_false hmarked)
      rw [retrieve_of_none hnone] at hretrieve
      cases hretrieve
    simp [hunmarked]

/-- In every run that stores nothing under a revoked name, a revocation is final, and retrieving and
brokering agree. -/
theorem revocation_final (h : (vaultMachine ciphers).ReachableUnder KeepsRevoked vault) :
    (∀ name reason now, (vault.revoke name reason now).2 = true → ∀ actions after,
      (vaultMachine ciphers).Meets KeepsRevoked (vault.revoke name reason now).1 actions →
      (vaultMachine ciphers).runFrom (vault.revoke name reason now).1 actions = some after →
        Final ciphers after name) ∧
      Agree ciphers vault := by
  refine ⟨fun name reason now hrevoke actions after hmeets hrun => ?_,
    agree_of_erased (erased_of_reachable h)⟩
  have hrevoked : (vaultMachine ciphers).ReachableUnder KeepsRevoked
      (vault.revoke name reason now).1 := h.step (a := .revoke name reason now) trivial rfl
  have hhas : vault.credentials.has name = true := by
    by_contra hhas
    rw [revoke, if_neg hhas] at hrevoke
    cases hrevoke
  have hmark := isRevoked_runFrom hrun (((revoke_of_has hhas).2 name).mpr (.inr rfl))
  exact final_of_none (erased_of_reachable (hrevoked.runFrom hmeets hrun) name hmark)

/-- Ciphers that only mark a text; a peer's key is one if it is not empty. -/
def tagging : Ciphers where
  encrypt := fun random value => (value ++ ".tag", random)
  decrypt := fun encrypted _ => some (String.ofList (encrypted.toList.takeWhile (· ≠ '.')))
  box := fun random value peerPublicKey =>
    if peerPublicKey = "" then none else some (random ++ peerPublicKey ++ value)

/-- A vault with one token. -/
def withToken (ciphers : Ciphers) : CredentialVault :=
  (empty.store ciphers "token" "old" ⟨none, none, none⟩ 0 "1" "n").1

theorem revocation_final_token :
    ∃ after, (vaultMachine tagging).runFrom ((withToken tagging).revoke "token" "lost" 1000).1
        [.store "other" "value" ⟨none, none, none⟩ 2000 "2" "m", .retrieve "other" 3000] =
          some after ∧ Final tagging after "token" := by
  have hreach : (vaultMachine tagging).ReachableUnder KeepsRevoked (withToken tagging) :=
    Machine.ReachableUnder.init.step
      (a := .store "token" "old" ⟨none, none, none⟩ 0 "1" "n") rfl rfl
  have hmeets : (vaultMachine tagging).Meets KeepsRevoked
      ((withToken tagging).revoke "token" "lost" 1000).1
      [.store "other" "value" ⟨none, none, none⟩ 2000 "2" "m", .retrieve "other" 3000] :=
    ⟨rfl, fun _ _ => ⟨trivial, fun _ _ => trivial⟩⟩
  exact ⟨_, rfl, (revocation_final hreach).1 "token" "lost" 1000 rfl _ _ hmeets rfl⟩

/-- The token is stored again after its revocation. -/
def storedAgain (ciphers : Ciphers) : CredentialVault :=
  (((withToken ciphers).revoke "token" "lost" 1000).1.store ciphers "token" "new"
    ⟨none, none, none⟩ 2000 "2" "m").1

theorem reachable_storedAgain (ciphers : Ciphers) :
    (vaultMachine ciphers).Reachable (storedAgain ciphers) := by
  have hrun : (vaultMachine ciphers).runFrom .empty
      [.store "token" "old" ⟨none, none, none⟩ 0 "1" "n", .revoke "token" "lost" 1000,
        .store "token" "new" ⟨none, none, none⟩ 2000 "2" "m"] = some (storedAgain ciphers) := rfl
  exact Machine.reachable_of_runFrom hrun

theorem get_storedAgain (ciphers : Ciphers) :
    ∃ row, (storedAgain ciphers).credentials.get "token" = some row ∧ row.expiresAt = none ∧
      (row.encryptedValue, row.nonce) = ciphers.encrypt "m" "new" :=
  ⟨_, rfl, rfl, rfl⟩

/-- With ciphers that open what they closed, the token is served though its name is revoked. -/
theorem served_storedAgain
    (hround : ciphers.decrypt (ciphers.encrypt "m" "new").1 (ciphers.encrypt "m" "new").2 =
      some "new") :
    ((withToken ciphers).revoke "token" "lost" 1000).2 = true ∧
      (vaultMachine ciphers).Reachable (storedAgain ciphers) ∧
      (∀ now, ∃ credential, ((storedAgain ciphers).retrieve ciphers "token" now).2 =
        some (some credential) ∧ credential.value = "new") ∧
      (∀ now, ((storedAgain ciphers).brokeredValue ciphers "token" now).2 =
        some (.error "Credential 'token' wurde revoziert")) ∧
      ∀ request now id random, request.credentialName = "token" →
        ((storedAgain ciphers).secretRequest ciphers request true now id random).2 =
          (ciphers.box random "new" request.requesterPublicKey).map fun sealedValue =>
            ⟨"token", .approved, some sealedValue, none⟩ := by
  obtain ⟨row, hrow, hunlimited, hencrypted⟩ := get_storedAgain ciphers
  have hdecrypt : ciphers.decrypt row.encryptedValue row.nonce = some "new" := by
    rw [← hencrypted] at hround
    exact hround
  have hretrieve := fun now => retrieve_of_unlimited hrow hunlimited hdecrypt now
  refine ⟨rfl, reachable_storedAgain ciphers, hretrieve, fun now => ?_, ?_⟩
  · obtain ⟨credential, hcredential, -⟩ := hretrieve now
    -- the broker looks at the revocations after the retrieval
    have hrevoked : ((storedAgain ciphers).retrieve ciphers "token" now).1.isRevoked "token" =
        true := by
      rw [isRevoked_of_revoked_eq revoked_retrieve]
      rfl
    rw [brokeredValue]
    dsimp only
    rw [hcredential, Option.map_some]
    dsimp only
    rw [if_pos hrevoked]
    rfl
  · intro request now id random hname
    -- the request for approval leaves the credentials alone
    have hcreated : ((storedAgain ciphers).createApprovalRequest request.sender "token"
        request.reason now id).credentials.get "token" = some row := hrow
    obtain ⟨credential, hcredential, hvalue⟩ :=
      retrieve_of_unlimited hcreated hunlimited hdecrypt now
    rw [secretRequest, hname]
    split
    · next hnone => rw [hnone] at hcredential; cases hcredential
    · next hnone => rw [hnone] at hcredential; cases hcredential
    · next served hserved =>
        rw [hserved] at hcredential
        obtain rfl := Option.some.inj (Option.some.inj hcredential)
        rw [if_pos rfl, hvalue]

/-- The revoked token is retrieved, and sealed for any paired peer, but not brokered. -/
theorem revoked_token_is_served :
    ((withToken tagging).revoke "token" "lost" 1000).2 = true ∧
      (vaultMachine tagging).Reachable (storedAgain tagging) ∧
      (∀ now, ∃ credential, ((storedAgain tagging).retrieve tagging "token" now).2 =
        some (some credential) ∧ credential.value = "new") ∧
      (∀ now, ((storedAgain tagging).brokeredValue tagging "token" now).2 =
        some (.error "Credential 'token' wurde revoziert")) ∧
      ∀ request now id random, request.credentialName = "token" →
        ((storedAgain tagging).secretRequest tagging request true now id random).2 =
          (tagging.box random "new" request.requesterPublicKey).map fun sealedValue =>
            ⟨"token", .approved, some sealedValue, none⟩ :=
  served_storedAgain (by decide +kernel)

end ThinkLocal.Vault
