import ThinkLocal.Js.Date
import ThinkLocal.Vault.Revocation

/-!
# When has a credential expired?

`cleanExpired` compares the text of an expiry with `datetime('now')`, byte by byte.  The two
agree up to the day; then one has a `T` and the other a blank, which is smaller.  So a credential
outlives its expiry until the end of the day, and `list` shows it; `retrieve` looks at the
instants as well.  The text of an expiry behind the year 9999 begins with a plus, and is before
all others.
-/

namespace ThinkLocal.Vault

open Js Foundation CredentialVault

variable {ciphers : Ciphers} {vault : CredentialVault} {name : String} {now expiresAt : Int}
  {row : CredentialRow}

/-! ## The two texts -/

theorem isoTime_length (time : Int) : (isoTime time).length = 8 := by
  have hms : (time.fmod 86400000).toNat < 86400000 := by
    rw [Int.fmod_eq_emod_of_nonneg _ (by decide)]
    omega
  unfold isoTime
  dsimp only
  generalize (time.fmod 86400000).toNat = ms at hms
  have htwo : ∀ n < 100, (padded 2 n).length = 2 := fun n hn =>
    length_padded (by decide) hn
  simp only [List.length_append, List.length_cons]
  rw [htwo _ (by omega), htwo _ (by omega), htwo _ (by omega)]

theorem exists_padded_two {n : Nat} (hn : n < 100) : ∃ a b, padded 2 n = [a, b] :=
  List.length_eq_two.mp (length_padded (by decide) hn)

/-- `datetime('now')` is made of the same parts where the year has four digits. -/
theorem sqlNow_of_fourDigits (hvalid : (toISOString now).isSome)
    (hyear : FourDigits (yearOf now)) :
    sqlNow now = some (isoDate (dayOf now) ++ ' ' :: isoTime now) := by
  obtain ⟨fraction, htext⟩ := toISOString_eq hvalid
  obtain ⟨⟨-, hmonth⟩, ⟨-, hday⟩, -⟩ := civilFromDays_spec (dayOf now)
  obtain ⟨hfour, hless⟩ := isoYear_of_fourDigits hyear
  have hlength := length_padded (by decide) hless
  obtain ⟨m₁, m₂, hm⟩ := exists_padded_two (hmonth.trans_lt (by decide))
  obtain ⟨d₁, d₂, hd⟩ := exists_padded_two (hday.trans_lt (by decide))
  have hseconds : (isoTime now ++ fraction).take 8 = isoTime now := by
    rw [← isoTime_length now, List.take_left]
  rw [sqlNow, htext, Option.getD_some, isoDate, ← yearOf, hfour, hm, hd]
  obtain ⟨y₁, y₂, y₃, y₄, hy⟩ := List.length_eq_four.mp hlength
  rw [hy]
  exact congrArg (fun time =>
    some (y₁ :: y₂ :: y₃ :: y₄ :: '-' :: m₁ :: m₂ :: '-' :: d₁ :: d₂ :: ' ' :: time)) hseconds

/-- Other years have no such text. -/
theorem sqlNow_of_not_fourDigits (hyear : ¬ FourDigits (yearOf now)) : sqlNow now = none := by
  rw [sqlNow]
  cases hvalid : toISOString now with
  | none => rfl
  | some text =>
      obtain ⟨fraction, htext⟩ := toISOString_eq (Option.isSome_iff_exists.mpr ⟨text, hvalid⟩)
      obtain ⟨sign, c₁, c₂, c₃, c₄, rest, hsign, -, hdash⟩ := isoYear_of_sign hyear
      rw [← hvalid, htext, Option.getD_some, isoDate, ← yearOf, hsign]
      split
      case h_1 heq =>
        simp only [List.cons_append, List.cons.injEq] at heq
        exact absurd heq.2.2.2.2.1 hdash
      case h_2 => rfl

/-- What `cleanExpired` decides about an expiry. -/
def cleansExpiry (expiresAt now : Int) : Bool :=
  (sqlNow now).any fun now => textBefore ((toISOString expiresAt).getD []) now

/-- In its texts an expiry has passed if its day has, or if its year has more than four digits. -/
theorem cleansExpiry_iff (hexpiry : (toISOString expiresAt).isSome)
    (hvalid : (toISOString now).isSome) (hyear : FourDigits (yearOf now)) :
    cleansExpiry expiresAt now = true ↔ dayOf expiresAt < dayOf now ∨ 9999 < yearOf expiresAt := by
  obtain ⟨fraction, htext⟩ := toISOString_eq hexpiry
  rw [cleansExpiry, sqlNow_of_fourDigits hvalid hyear, Option.any_some, htext, Option.getD_some]
  by_cases hfour : FourDigits (yearOf expiresAt)
  · have hblank : textBefore ('T' :: (isoTime expiresAt ++ fraction)) (' ' :: isoTime now) = false :=
      rfl
    rw [textBefore_isoDate hfour hyear, hblank]
    have hnot : ¬ 9999 < yearOf expiresAt := not_lt.mpr hfour.2
    simp [hnot]
  · rw [textBefore_of_sign hfour hyear]
    by_cases hlong : 9999 < yearOf expiresAt
    · simp [hlong]
    · -- a year before year 0
      have hearlier : dayOf expiresAt < dayOf now := by
        refine day_lt_of_year_lt ?_
        rw [FourDigits] at hfour
        have hfirst := hyear.1
        rw [← yearOf, ← yearOf]
        omega
      simp [hearlier]

/-- The texts say of an expiry what its instant does. -/
def JudgedRightly (expiresAt now : Int) : Prop :=
  if (toISOString now).isSome ∧ FourDigits (yearOf now) then
    yearOf expiresAt ≤ 9999 ∧ (expiresAt < now → dayOf expiresAt < dayOf now)
  else now ≤ expiresAt

theorem judgedRightly_iff (hexpiry : (toISOString expiresAt).isSome) :
    JudgedRightly expiresAt now ↔ (cleansExpiry expiresAt now = true ↔ expiresAt < now) := by
  rw [JudgedRightly]
  split
  case isTrue hnow =>
    obtain ⟨hvalid, hyear⟩ := hnow
    rw [cleansExpiry_iff hexpiry hvalid hyear]
    have hearlier : dayOf expiresAt < dayOf now → expiresAt < now := by
      intro hday
      by_contra hle
      exact absurd (dayOf_mono (not_lt.mp hle)) (not_le.mpr hday)
    constructor
    · rintro ⟨hshort, hday⟩
      constructor
      · rintro (hless | hlong)
        · exact hearlier hless
        · exact absurd hlong (not_lt.mpr hshort)
      · intro hpassed
        exact .inl (hday hpassed)
    · intro hagree
      have hshort : yearOf expiresAt ≤ 9999 := by
        by_contra hlong
        have hless := hagree.mp (.inr (not_le.mp hlong))
        -- the expiry would have passed, and its year is later
        have hlater : dayOf now < dayOf expiresAt :=
          day_lt_of_year_lt (hyear.2.trans_lt (not_le.mp hlong))
        exact absurd (dayOf_mono hless.le) (not_le.mpr hlater)
      refine ⟨hshort, fun hpassed => ?_⟩
      rcases hagree.mpr hpassed with hday | hlong
      · exact hday
      · exact absurd hlong (not_lt.mpr hshort)
  case isFalse hnow =>
    have hnone : cleansExpiry expiresAt now = false := by
      by_cases hvalid : (toISOString now).isSome
      · have hyear : ¬ FourDigits (yearOf now) := fun hyear => hnow ⟨hvalid, hyear⟩
        rw [cleansExpiry, sqlNow_of_not_fourDigits hyear]
        rfl
      · rw [cleansExpiry, sqlNow, Option.not_isSome_iff_eq_none.mp hvalid]
        rfl
    simp [hnone]

/-! ## The rows of a vault -/

/-- The expiries in the rows have texts. -/
def ExpiriesValid (vault : CredentialVault) : Prop :=
  ∀ name row, vault.credentials.get name = some row →
    ∀ expiresAt ∈ row.expiresAt, (toISOString expiresAt).isSome

theorem isSome_of_expiry {ttlHours : Option Number} (h : expiry now ttlHours = some (some expiresAt)) :
    (toISOString expiresAt).isSome := by
  unfold expiry at h
  split at h
  · cases h
  · cases h
  · split_ifs at h
    · cases h
    · split at h
      · dsimp only at h
        split_ifs at h with hsome hnonneg
        all_goals
          obtain rfl := Option.some.inj (Option.some.inj h)
          assumption
      · cases h
  · cases h

theorem get_cleanExpired (vault : CredentialVault) (name : String) (now : Int) :
    (vault.cleanExpired now).credentials.get name = (vault.credentials.get name).filter fun row =>
      ! row.expiresAt.any fun expiresAt => cleansExpiry expiresAt now := by
  rw [cleanExpired, InsertionMap.get_filter]
  congr 1
  funext row
  cases row.expiresAt with
  | none => rfl
  | some expiresAt => cases hnow : sqlNow now <;> simp [cleansExpiry, hnow]

theorem ExpiriesValid.cleanExpired (h : ExpiriesValid vault) (now : Int) :
    ExpiriesValid (vault.cleanExpired now) := by
  intro name row hrow
  rw [get_cleanExpired] at hrow
  exact h name row (Option.filter_eq_some_iff.mp hrow).1

theorem ExpiriesValid.delete (h : ExpiriesValid vault) {after : CredentialVault} {other : String}
    (hafter : after.credentials = vault.credentials.delete other) : ExpiriesValid after := by
  intro name row hrow
  rw [hafter] at hrow
  exact h name row (InsertionMap.get_of_get_delete hrow).2

theorem ExpiriesValid.retrieve (h : ExpiriesValid vault) (name : String) (now : Int) :
    ExpiriesValid (vault.retrieve ciphers name now).1 := by
  have hclean := h.cleanExpired now
  unfold CredentialVault.retrieve
  dsimp only
  split
  · exact hclean
  · next row hrow =>
      split_ifs
      · exact hclean
      · intro other row' hrow'
        dsimp only at hrow'
        rw [InsertionMap.get_set] at hrow'
        split_ifs at hrow' with hother
        · obtain rfl := Option.some.inj hrow'
          exact hclean name row hrow
        · exact hclean other row' hrow'

theorem ExpiriesValid.store (h : ExpiriesValid vault) (name value : String)
    (options : StoreOptions) (now : Int) (id random : String) :
    ExpiriesValid (vault.store ciphers name value options now id random).1 := by
  unfold CredentialVault.store
  split
  · exact h
  · next expiresAt hexpiry =>
      intro other row hrow
      dsimp only at hrow
      rw [InsertionMap.get_set] at hrow
      split_ifs at hrow with hother
      · obtain rfl := Option.some.inj hrow
        intro time htime
        obtain rfl : expiresAt = some time := htime
        exact isSome_of_expiry hexpiry
      · rw [InsertionMap.get_filter] at hrow
        exact h other row (Option.filter_eq_some_iff.mp hrow).1

theorem expiriesValid_vaultStep (h : ExpiriesValid vault) (action : VaultAction) :
    ExpiriesValid (vaultStep ciphers vault action) := by
  cases action with
  | store name value options now id random => exact h.store name value options now id random
  | retrieve name now => exact h.retrieve name now
  | remove name => exact h.delete rfl
  | revoke name reason now =>
      by_cases hhas : vault.credentials.has name = true
      · rw [vaultStep, revoke, if_pos hhas]
        exact h.delete rfl
      · rw [vaultStep, revoke, if_neg hhas]
        exact h
  | list category now => exact h.cleanExpired now
  | executeBrokered name action now => exact h.retrieve name now
  | secretRequest request senderIsPaired now id random =>
      intro name row hrow
      rw [vaultStep, (secretRequest_tables request senderIsPaired now id random).1] at hrow
      have hrequest : ExpiriesValid (vault.createApprovalRequest request.sender
        request.credentialName request.reason now id) := h
      exact hrequest.retrieve request.credentialName now name row hrow

theorem expiriesValid_of_reachable (h : (vaultMachine ciphers).Reachable vault) :
    ExpiriesValid vault := by
  refine Machine.ReachableUnder.invariant ?_ ?_ h
  · intro name row hrow
    cases hrow
  · intro vault action after hvalid _ hstep
    obtain rfl := Option.some.inj hstep
    exact expiriesValid_vaultStep hvalid action

/-! ## What the calls say of an expiry -/

def Expired (row : CredentialRow) (now : Int) : Prop := ∃ expiresAt ∈ row.expiresAt, expiresAt < now

/-- The category that `list` is asked for. -/
def InCategory (category : Option String) (row : CredentialRow) : Prop :=
  ∀ asked ∈ category, asked = "" ∨ row.category = asked

/-- `retrieve` returns `null`, `list` omits and the clean-up deletes exactly what has expired. -/
structure ExpiryExact (ciphers : Ciphers) (vault : CredentialVault) (now : Int) : Prop where
  retrieved : ∀ name row, vault.credentials.get name = some row →
    ((vault.retrieve ciphers name now).2 = some none ↔ Expired row now)
  listed : ∀ name row category, vault.credentials.get name = some row →
    (row.toCredential ∈ (vault.list category now).2 ↔ InCategory category row ∧ ¬ Expired row now)
  cleaned : ∀ name row, vault.credentials.get name = some row →
    ((vault.cleanExpired now).credentials.get name = none ↔ Expired row now) ∧
      ((vault.cleanExpired now).credentials.get name = some row ↔ ¬ Expired row now)

/-- The clean-up and the instants agree on a row. -/
def Agrees (row : CredentialRow) (now : Int) : Prop :=
  (row.expiresAt.any fun expiresAt => cleansExpiry expiresAt now) = true ↔ Expired row now

theorem agrees_iff (hvalid : ExpiriesValid vault) (hrow : vault.credentials.get name = some row) :
    Agrees row now ↔ ∀ expiresAt ∈ row.expiresAt, JudgedRightly expiresAt now := by
  rw [Agrees, Expired]
  cases hexpiry : row.expiresAt with
  | none => simp
  | some expiresAt => simp [judgedRightly_iff (hvalid name row hrow expiresAt hexpiry)]

theorem cleaned_of_agrees (hrow : vault.credentials.get name = some row) (hagrees : Agrees row now) :
    ((vault.cleanExpired now).credentials.get name = none ↔ Expired row now) ∧
      ((vault.cleanExpired now).credentials.get name = some row ↔ ¬ Expired row now) := by
  rw [Agrees] at hagrees
  rw [get_cleanExpired, hrow, ← hagrees]
  simp [Option.filter]

/-- A row that the clean-up leaves is not retrieved behind its expiry. -/
theorem retrieved_of_agrees (hrow : vault.credentials.get name = some row)
    (hagrees : Agrees row now) :
    (vault.retrieve ciphers name now).2 = some none ↔ Expired row now := by
  obtain ⟨hgone, hkept⟩ := cleaned_of_agrees hrow hagrees
  rw [retrieve]
  by_cases hexpired : Expired row now
  · simp [hgone.mpr hexpired, hexpired]
  · have hlater : (row.expiresAt.any fun expiresAt => decide (expiresAt < now)) = false := by
      rw [Expired] at hexpired
      cases hexpiry : row.expiresAt <;> simp_all
    simp only [hkept.mpr hexpired, hlater, hexpired, iff_false]
    cases ciphers.decrypt row.encryptedValue row.nonce <;> simp

theorem mem_list_iff {category : Option String} {credential : Credential} :
    credential ∈ (vault.list category now).2 ↔
      ∃ name row, (vault.cleanExpired now).credentials.get name = some row ∧
        InCategory category row ∧ row.toCredential = credential := by
  unfold CredentialVault.list
  simp only [List.mem_map, List.mem_mergeSort, List.mem_filter, InsertionMap.mem_values_iff]
  constructor
  · rintro ⟨row, ⟨⟨name, hrow⟩, hcategory⟩, hsame⟩
    refine ⟨name, row, hrow, ?_, hsame⟩
    rintro asked rfl
    simpa using hcategory
  · rintro ⟨name, row, hrow, hcategory, hsame⟩
    refine ⟨row, ⟨⟨name, hrow⟩, ?_⟩, hsame⟩
    cases category with
    | none => rfl
    | some asked => simpa using hcategory asked rfl

theorem listed_of_agrees {category : Option String}
    (hagree : ∀ name row, vault.credentials.get name = some row → Agrees row now)
    (hrow : vault.credentials.get name = some row) :
    row.toCredential ∈ (vault.list category now).2 ↔
      InCategory category row ∧ ¬ Expired row now := by
  rw [mem_list_iff]
  constructor
  · rintro ⟨other, row', hrow', hcategory, hsame⟩
    -- the credential decides both, whichever row it is shown for
    have hexpiry : row'.expiresAt = row.expiresAt := congrArg Credential.expiresAt hsame
    have hcategories : row'.category = row.category := congrArg Credential.category hsame
    have hbefore : vault.credentials.get other = some row' := by
      rw [get_cleanExpired] at hrow'
      exact (Option.filter_eq_some_iff.mp hrow').1
    have hkept := (cleaned_of_agrees hbefore (hagree other row' hbefore)).2.mp hrow'
    rw [Expired, hexpiry] at hkept
    rw [InCategory, hcategories] at hcategory
    exact ⟨hcategory, hkept⟩
  · rintro ⟨hcategory, hexpired⟩
    exact ⟨name, row, (cleaned_of_agrees hrow (hagree name row hrow)).2.mpr hexpired, hcategory, rfl⟩

/-- The calls are exact at a time exactly if the texts of all expiries are judged rightly then. -/
theorem vault_expiry_iff (hreach : (vaultMachine ciphers).Reachable vault) (now : Int) :
    ExpiryExact ciphers vault now ↔
      ∀ name row, vault.credentials.get name = some row →
        ∀ expiresAt ∈ row.expiresAt, JudgedRightly expiresAt now := by
  have hvalid := expiriesValid_of_reachable hreach
  constructor
  · intro hexact name row hrow
    refine (agrees_iff hvalid hrow).mp ?_
    have hgone := (hexact.cleaned name row hrow).1
    rw [get_cleanExpired, hrow] at hgone
    rw [Agrees, ← hgone]
    simp [Option.filter]
  · intro hjudged
    have hagree : ∀ name row, vault.credentials.get name = some row → Agrees row now :=
      fun name row hrow => (agrees_iff hvalid hrow).mpr (hjudged name row hrow)
    exact
      { retrieved := fun name row hrow => retrieved_of_agrees hrow (hagree name row hrow)
        listed := fun name row category hrow => listed_of_agrees hagree hrow
        cleaned := fun name row hrow => cleaned_of_agrees hrow (hagree name row hrow) }

/-- A vault with a token for one hour, from 2026-01-01T00:00:00Z. -/
def withHour (ciphers : Ciphers) : CredentialVault :=
  (empty.store ciphers "token" "value" ⟨none, none, some (.finite 1)⟩ 1767225600000 "1" "n").1

theorem reachable_withHour (ciphers : Ciphers) :
    (vaultMachine ciphers).Reachable (withHour ciphers) := by
  have hrun : (vaultMachine ciphers).runFrom .empty
      [.store "token" "value" ⟨none, none, some (.finite 1)⟩ 1767225600000 "1" "n"] =
        some (withHour ciphers) := rfl
  exact Machine.reachable_of_runFrom hrun

theorem withHour_eq (ciphers : Ciphers) :
    ∃ row, (withHour ciphers).credentials.get "token" = some row ∧
      row.expiresAt = some 1767229200000 ∧
      ∀ name row', (withHour ciphers).credentials.get name = some row' → row' = row := by
  have hexpiry : expiry 1767225600000 (some (.finite 1)) = some (some 1767229200000) := by
    decide +kernel
  rw [withHour, store, hexpiry]
  dsimp only
  refine ⟨_, InsertionMap.get_set_self _ _ _, rfl, ?_⟩
  intro name row' hrow'
  rw [InsertionMap.get_set, InsertionMap.get_filter] at hrow'
  split_ifs at hrow' with hname
  · exact (Option.some.inj hrow').symm
  · cases hrow'

/-- On the next day all is exact. -/
theorem vault_expiry_next_day : ExpiryExact tagging (withHour tagging) 1767312000000 := by
  refine (vault_expiry_iff (reachable_withHour tagging) 1767312000000).mpr ?_
  obtain ⟨row, -, hexpiry, honly⟩ := withHour_eq tagging
  intro name row' hrow' expiresAt htime
  obtain rfl := honly name row' hrow'
  obtain rfl := Option.some.inj (hexpiry.symm.trans htime)
  rw [JudgedRightly]
  decide +kernel

/-- One hour behind its expiry the token is still listed, and not retrieved. -/
theorem expired_token_listed :
    ∃ row, (withHour tagging).credentials.get "token" = some row ∧ Expired row 1767232800000 ∧
      ((withHour tagging).retrieve tagging "token" 1767232800000).2 = some none ∧
      row.toCredential ∈ ((withHour tagging).list none 1767232800000).2 ∧
      ¬ ExpiryExact tagging (withHour tagging) 1767232800000 := by
  obtain ⟨row, hrow, hexpiry, -⟩ := withHour_eq tagging
  have hexpired : Expired row 1767232800000 := ⟨_, hexpiry, by decide⟩
  have hkept : ((withHour tagging).cleanExpired 1767232800000).credentials.get "token" =
      some row := by
    have hclean : cleansExpiry 1767229200000 1767232800000 = false := by decide +kernel
    rw [get_cleanExpired, hrow]
    simp [Option.filter, hexpiry, hclean]
  have hnone : ∀ asked ∈ (none : Option String), asked = "" ∨ row.category = asked := by simp
  have hlisted : row.toCredential ∈ ((withHour tagging).list none 1767232800000).2 :=
    mem_list_iff.mpr ⟨"token", row, hkept, hnone, rfl⟩
  refine ⟨row, hrow, hexpired, ?_, hlisted, ?_⟩
  · simp [retrieve, hkept, hexpiry]
  · intro hexact
    exact ((hexact.listed "token" row none hrow).mp hlisted).2 hexpired

end ThinkLocal.Vault
