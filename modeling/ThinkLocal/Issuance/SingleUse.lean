import ThinkLocal.Foundation.Machine
import ThinkLocal.Issuance.CertIssuer

/-!
# Certificates are proven and issued once

The issuer over its calls.  A request gives up its nonce at once and is answered later, when its proof
has been checked; in between other calls come in.
-/

namespace ThinkLocal.Issuance

open Js Foundation Foundation.Except

variable {forge : Forge}

/-! ## What a certificate goes back to -/

/-- The request proves that it may have the certificate. -/
structure Proven (issuer : CertIssuer forge) (req : CertSignRequest)
    (certificate : NodeCertificate forge.Key) : Prop where
  /-- A key from which the peer's id derives has signed the message for the key of the request. -/
  signed : ∃ pubKey hash, issuer.keys.publicKeyFromRaw (fromBase64 req.ed25519PublicKeyB64) =
      .ok pubKey ∧ issuer.keys.type pubKey = "Ed25519" ∧
    issuer.keys.peerIdFromPublicKey pubKey = req.peerId ∧
    publicKeyDerHash forge certificate.publicKey = .ok hash ∧
    issuer.keys.verify pubKey (buildCertPopMessage (issuer.popFields req hash))
      (fromBase64 req.popSignatureB64) = .ok true
  uri : req.spiffeUri = "spiffe://thinklocal/node/" ++ req.peerId
  ownKey : ∃ csr, forge.certificationRequestFromPem req.csrPem = .ok csr ∧
    csr.verify = .ok true ∧ csr.publicKey = some certificate.publicKey
  carriesUri : .uri req.spiffeUri ∈ certificate.altNames
  onlyUri : ∀ value, .uri value ∈ certificate.altNames → value = req.spiffeUri
  /-- A host is no URI. -/
  hosts : ∀ value, .dns value ∈ certificate.altNames → ':' ∉ value.toList

theorem prefixError_eq_ok {α : Type} {start : String} {x : Except String α} {a : α}
    (h : prefixError start x = .ok a) : x = .ok a := by
  cases x with
  | ok b => exact h
  | error message => cases h

theorem popFailed_eq_ok {α : Type} {x : Except String α} {a : α} (h : popFailed x = .ok a) :
    x = .ok a := by
  cases x with
  | ok b => exact h
  | error message => cases h

theorem verifyCertPop_eq_ok {keys : PeerKeys} {raw : Bytes} {fields : CertPopFields}
    {signatureB64 fingerprint : String}
    (h : verifyCertPop keys raw fields signatureB64 fingerprint = .ok ()) :
    ∃ pubKey, keys.publicKeyFromRaw raw = .ok pubKey ∧ keys.type pubKey = "Ed25519" ∧
      keys.peerIdFromPublicKey pubKey = fields.peerId ∧
      fields.spiffeUri = "spiffe://thinklocal/node/" ++ fields.peerId ∧
      keys.verify pubKey (buildCertPopMessage fields) (fromBase64 signatureB64) = .ok true := by
  obtain ⟨pubKey, hpubKey, h⟩ := bind_eq_ok_iff.mp h
  dsimp only at h
  split_ifs at h with htype hpeer huri hfingerprint
  obtain ⟨valid, hvalid, h⟩ := bind_eq_ok_iff.mp h
  rw [not_not] at htype hpeer huri
  cases valid with
  | false => cases h
  | true =>
      exact ⟨pubKey, popFailed_eq_ok hpubKey, htype, hpeer, hpeer ▸ huri, popFailed_eq_ok hvalid⟩

theorem csrPublicKeyHash_eq_ok {csrPem hash : String}
    (h : csrPublicKeyHash forge csrPem = .ok hash) :
    ∃ csr key, forge.certificationRequestFromPem csrPem = .ok csr ∧ csr.publicKey = some key ∧
      publicKeyDerHash forge key = .ok hash := by
  unfold csrPublicKeyHash at h
  dsimp only at h
  split at h
  · cases h
  · cases h
  · next parsed hparsed =>
      obtain rfl := Except.ok.inj h
      obtain ⟨csr, hcsr, hparsed⟩ := bind_eq_ok_iff.mp hparsed
      obtain ⟨verified, hverified, hparsed⟩ := bind_eq_ok_iff.mp hparsed
      cases verified with
      | false => cases hparsed
      | true =>
          cases hkey : csr.publicKey with
          | none =>
              rw [hkey] at hparsed
              cases hparsed
          | some key =>
              rw [hkey] at hparsed
              obtain ⟨hash', hhash, hparsed⟩ := bind_eq_ok_iff.mp hparsed
              obtain rfl := Option.some.inj (pure_eq_ok_iff.mp hparsed)
              exact ⟨csr, key, hcsr, hkey, hhash⟩

/-- A host has no colon. -/
theorem colon_notMem_hostname {name : String} (h : isHostname name = true) :
    ':' ∉ name.toList := by
  intro hcolon
  have hlabels := (of_decide_eq_true h).2.2
  have hjoin : joinSegments '.' (segments '.' name) = name := joinSegments_segments
  rw [← hjoin] at hcolon
  rcases mem_joinSegments hcolon with hdot | ⟨label, hlabel, hmem⟩
  · cases hdot
  · have hchars := (of_decide_eq_true (List.all_eq_true.mp hlabels label hlabel)).2.2.1
    have hno := List.all_eq_true.mp hchars ':' hmem
    exact absurd hno (by decide)

theorem eq_ip_of_mem_mapM {ips : List String} {names : List AltName}
    (h : ips.mapM (ipName forge) = .ok names) {name : AltName} (hname : name ∈ names) :
    ∃ bytes, name = .ip bytes := by
  induction ips generalizing names with
  | nil =>
      obtain rfl := pure_eq_ok_iff.mp h
      cases hname
  | cons ip ips ih =>
      rw [List.mapM_cons] at h
      obtain ⟨first, hfirst, h⟩ := bind_eq_ok_iff.mp h
      obtain ⟨rest, hrest, h⟩ := bind_eq_ok_iff.mp h
      obtain rfl := pure_eq_ok_iff.mp h
      rcases List.mem_cons.mp hname with rfl | hname
      · unfold ipName at hfirst
        split at hfirst
        · exact ⟨_, (Except.ok.inj hfirst).symm⟩
        · cases hfirst
      · exact ih hrest hname

theorem eq_dns_of_mem_csrHostname {commonName : Option String} {spiffeUri : String}
    {name : AltName} (h : name ∈ csrHostname commonName spiffeUri) :
    ∃ host, name = .dns host ∧ isHostname host = true := by
  unfold csrHostname at h
  split at h
  · next csrCn =>
      split_ifs at h with hown
      · exact ⟨csrCn, List.mem_singleton.mp h, hown.2.2.2⟩
      · cases h
  · cases h

/-- The names of a certificate: the one URI, hosts and addresses. -/
theorem altNames_eq_ok {spiffeUri : String} {commonName : Option String} {ips : List String}
    {names : List AltName} (h : altNames forge spiffeUri commonName ips = .ok names) :
    .uri spiffeUri ∈ names ∧ ∀ name ∈ names, name = .uri spiffeUri ∨
      (∃ host, name = .dns host ∧ ':' ∉ host.toList) ∨ ∃ bytes, name = .ip bytes := by
  obtain ⟨loopback, hloopback, h⟩ := bind_eq_ok_iff.mp h
  obtain ⟨own, hown, h⟩ := bind_eq_ok_iff.mp h
  obtain rfl := pure_eq_ok_iff.mp h
  refine ⟨by simp, fun name hname => ?_⟩
  simp only [List.mem_append, List.mem_cons, List.not_mem_nil, or_false] at hname
  rcases hname with (((rfl | rfl) | hname) | hname) | hname
  · exact .inl rfl
  · exact .inr (.inl ⟨"localhost", rfl, by decide⟩)
  · exact .inr (.inr (eq_ip_of_mem_mapM hloopback hname))
  · obtain ⟨host, rfl, hhost⟩ := eq_dns_of_mem_csrHostname hname
    exact .inr (.inl ⟨host, rfl, colon_notMem_hostname hhost⟩)
  · exact .inr (.inr (eq_ip_of_mem_mapM hown hname))

theorem signNodeCertFromCsr_eq_ok {ca : CaBundle} {csrPem spiffeUri serial : String}
    {ips : List String} {now : Int} {signed : SignedCertificate forge}
    (h : signNodeCertFromCsr forge ca csrPem spiffeUri ips serial now = .ok signed) :
    ∃ csr, forge.certificationRequestFromPem csrPem = .ok csr ∧ csr.verify = .ok true ∧
      csr.publicKey = some signed.certificate.publicKey ∧
      altNames forge spiffeUri csr.commonName ips = .ok signed.certificate.altNames := by
  obtain ⟨csr, hcsr, h⟩ := bind_eq_ok_iff.mp h
  obtain ⟨verified, hverified, h⟩ := bind_eq_ok_iff.mp h
  cases verified with
  | false => cases h
  | true =>
      cases hkey : csr.publicKey with
      | none =>
          rw [hkey] at h
          cases h
      | some key =>
          rw [hkey] at h
          obtain ⟨caCert, -, h⟩ := bind_eq_ok_iff.mp h
          obtain ⟨caKey, -, h⟩ := bind_eq_ok_iff.mp h
          obtain ⟨names, hnames, h⟩ := bind_eq_ok_iff.mp h
          obtain ⟨signature, -, h⟩ := bind_eq_ok_iff.mp h
          obtain rfl := pure_eq_ok_iff.mp h
          exact ⟨csr, hcsr, hverified, hkey, hnames⟩

/-- Whoever gets a certificate has proven its request. -/
theorem proven_of_issueCert {issuer : CertIssuer forge} {req : CertSignRequest}
    {ips : List String} {serial : String} {now : Int} {signed : SignedCertificate forge}
    (h : issuer.issueCert req ips serial now = .ok signed) :
    Proven issuer req signed.certificate := by
  obtain ⟨hash, hhash, h⟩ := bind_eq_ok_iff.mp h
  dsimp only at h
  split_ifs at h with hlength
  obtain ⟨_, hpop, h⟩ := bind_eq_ok_iff.mp h
  obtain ⟨pubKey, hpubKey, htype, hpeer, huri, hvalid⟩ :=
    verifyCertPop_eq_ok (prefixError_eq_ok hpop)
  obtain ⟨csr, hcsr, hverify, hkey, hnames⟩ := signNodeCertFromCsr_eq_ok (prefixError_eq_ok h)
  obtain ⟨csr', key, hcsr', hkey', hder⟩ := csrPublicKeyHash_eq_ok hhash
  -- the request is parsed twice
  obtain rfl : csr = csr' := Except.ok.inj (hcsr.symm.trans hcsr')
  obtain rfl : signed.certificate.publicKey = key := Option.some.inj (hkey.symm.trans hkey')
  obtain ⟨hcarries, hall⟩ := altNames_eq_ok hnames
  refine
    { signed := ⟨pubKey, hash, hpubKey, htype, hpeer, hder, hvalid⟩
      uri := huri
      ownKey := ⟨csr, hcsr, hverify, hkey⟩
      carriesUri := hcarries
      onlyUri := fun value hvalue => ?_
      hosts := fun value hvalue => ?_ }
  · rcases hall _ hvalue with huri | ⟨host, hhost, -⟩ | ⟨bytes, hbytes⟩
    · exact AltName.uri.inj huri
    · cases hhost
    · cases hbytes
  · rcases hall _ hvalue with huri | ⟨host, hhost, hcolon⟩ | ⟨bytes, hbytes⟩
    · cases huri
    · rw [AltName.dns.inj hhost]
      exact hcolon
    · cases hbytes

/-! ## Calls -/

/-- A call that has consumed its nonce. -/
structure Attempt where
  req : CertSignRequest
  ipAddresses : List String
  consumedAt : Int

/-- A certificate with the call that asked for it. -/
structure Granted (forge : Forge) where
  attempt : Attempt
  signed : SignedCertificate forge

structure IssuerState (forge : Forge) where
  nonceStore : NonceStore
  /-- The nonces that were given out, with their ends. -/
  nonces : List (String × Int)
  pending : List Attempt
  certificates : List (Granted forge)

inductive IssuanceAction
  /-- `issue`, with its readings of the clock and the nonce that is drawn. -/
  | issue (gcTime time : Int) (nonce : String)
  /-- `verifyAndIssue` up to its first `await`. -/
  | request (req : CertSignRequest) (ipAddresses : List String) (time : Int)
  /-- The end of the pending call at the index. -/
  | answer (index : Nat) (serial : String) (now : Int)

variable (issuer : CertIssuer forge)

def IssuerState.answer (s : IssuerState forge) (index : Nat) (serial : String) (now : Int) :
    Option (IssuerState forge) :=
  match s.pending[index]? with
  | none => none
  | some attempt =>
      some { s with
        pending := s.pending.eraseIdx index
        certificates :=
          match issuer.issueCert attempt.req attempt.ipAddresses serial now with
          | .ok signed => ⟨attempt, signed⟩ :: s.certificates
          | .error _ => s.certificates }

def IssuerState.step (s : IssuerState forge) : IssuanceAction → Option (IssuerState forge)
  | .issue gcTime time nonce =>
      let given := s.nonceStore.issue gcTime time nonce
      some { s with
        nonceStore := given.1
        nonces := (given.2.map fun nonce => (nonce, time + s.nonceStore.ttlMs)).toList ++ s.nonces }
  | .request req ipAddresses time =>
      let consumed := s.nonceStore.consume time req.nonce
      some { s with
        nonceStore := consumed.1
        pending := if consumed.2 then ⟨req, ipAddresses, time⟩ :: s.pending else s.pending }
  | .answer index serial now => s.answer issuer index serial now

def issuanceMachine (ttlMs : Int) (maxEntries : Nat) : Machine (IssuerState forge) IssuanceAction where
  init := ⟨.empty ttlMs maxEntries, [], [], []⟩
  step := IssuerState.step issuer

/-! ## What holds in every run -/

variable {issuer} {ttlMs : Int} {maxEntries : Nat}

/-- The nonces that are given out are stored, pending or spent, each once. -/
structure Accounted (issuer : CertIssuer forge) (maxEntries : Nat) (s : IssuerState forge) :
    Prop where
  maxEntries_eq : s.nonceStore.maxEntries = maxEntries
  count_le : ∀ nonce, s.certificates.countP (·.attempt.req.nonce = nonce) +
    s.pending.countP (·.req.nonce = nonce) +
    (if (s.nonceStore.nonces.get nonce).isSome then 1 else 0) ≤ s.nonces.countP (·.1 = nonce)
  stored : ∀ nonce expiresAt, s.nonceStore.nonces.get nonce = some expiresAt →
    (nonce, expiresAt) ∈ s.nonces
  pending_inTime : ∀ attempt ∈ s.pending, ∃ expiresAt,
    (attempt.req.nonce, expiresAt) ∈ s.nonces ∧ attempt.consumedAt ≤ expiresAt
  certificates_inTime : ∀ granted ∈ s.certificates, ∃ expiresAt,
    (granted.attempt.req.nonce, expiresAt) ∈ s.nonces ∧ granted.attempt.consumedAt ≤ expiresAt
  proven : ∀ granted ∈ s.certificates,
    Proven issuer granted.attempt.req granted.signed.certificate

/-- Collecting only forgets nonces. -/
theorem get_of_get_gc {store : NonceStore} {time expiresAt : Int} {nonce : String}
    (h : (store.gc time).nonces.get nonce = some expiresAt) :
    store.nonces.get nonce = some expiresAt := by
  have hget : (store.gc time).nonces.get nonce = _ := store.nonces.get_filter _ nonce
  rw [hget] at h
  exact Option.eq_some_of_filter_eq_some h

theorem NonceStore.issue_cases (store : NonceStore) (gcTime time : Int) (nonce : String) :
    store.issue gcTime time nonce = (store.gc gcTime, none) ∨
      (store.issue gcTime time nonce).2 = some nonce ∧
      (store.issue gcTime time nonce).1.maxEntries = store.maxEntries ∧
      (store.issue gcTime time nonce).1.nonces =
        (store.gc gcTime).nonces.set nonce (time + store.ttlMs) := by
  unfold issue
  dsimp only
  split_ifs with hfull
  · exact .inl rfl
  · exact .inr ⟨rfl, rfl, rfl⟩

theorem Accounted.issue {s : IssuerState forge} (hs : Accounted issuer maxEntries s)
    (gcTime time : Int) (nonce : String) {s' : IssuerState forge}
    (h : s.step issuer (.issue gcTime time nonce) = some s') : Accounted issuer maxEntries s' := by
  obtain rfl := Option.some.inj h
  have hcollected : ∀ other, (if ((s.nonceStore.gc gcTime).nonces.get other).isSome then 1 else 0) ≤
      if (s.nonceStore.nonces.get other).isSome then 1 else 0 := by
    intro other
    split_ifs with hgc hstored
    · exact le_rfl
    · obtain ⟨expiresAt, hget⟩ := Option.isSome_iff_exists.mp hgc
      rw [get_of_get_gc hget] at hstored
      exact absurd rfl hstored
    · exact Nat.zero_le _
    · exact le_rfl
  -- without room nothing is stored but the clean-up, else the nonce is new or its time is drawn anew
  rcases s.nonceStore.issue_cases gcTime time nonce with hthrown | ⟨hgiven, hmax, hnonces⟩
  · rw [hthrown]
    exact
      { maxEntries_eq := hs.maxEntries_eq
        count_le := fun other => (Nat.add_le_add_left (hcollected other) _).trans (hs.count_le other)
        stored := fun other expiresAt hget => hs.stored other expiresAt (get_of_get_gc hget)
        pending_inTime := hs.pending_inTime
        certificates_inTime := hs.certificates_inTime
        proven := hs.proven }
  · rw [hgiven]
    refine
      { maxEntries_eq := hmax.trans hs.maxEntries_eq
        count_le := fun other => ?_
        stored := fun other expiresAt hget => ?_
        pending_inTime := fun attempt hattempt => ?_
        certificates_inTime := fun granted hgranted => ?_
        proven := hs.proven }
    · have hold := hs.count_le other
      have hgc := hcollected other
      rw [hnonces]
      dsimp only [Option.map_some, Option.toList_some, List.singleton_append]
      by_cases hother : other = nonce
      · rw [hother] at hold hgc ⊢
        rw [InsertionMap.get_set_self, Option.isSome_some, if_pos rfl, List.countP_cons,
          if_pos (decide_eq_true rfl)]
        exact Nat.add_le_add_right ((Nat.le_add_right _ _).trans hold) 1
      · rw [InsertionMap.get_set_of_ne _ _ hother,
          List.countP_cons_of_neg (by simpa using fun heq => hother heq.symm)]
        exact (Nat.add_le_add_left hgc _).trans hold
    · rw [hnonces] at hget
      by_cases hother : other = nonce
      · rw [hother, InsertionMap.get_set_self] at hget
        obtain rfl := Option.some.inj hget
        rw [hother]
        exact List.mem_cons_self
      · rw [InsertionMap.get_set_of_ne _ _ hother] at hget
        exact List.mem_cons_of_mem _ (hs.stored other expiresAt (get_of_get_gc hget))
    · obtain ⟨expiresAt, hmem, hle⟩ := hs.pending_inTime attempt hattempt
      exact ⟨expiresAt, List.mem_cons_of_mem _ hmem, hle⟩
    · obtain ⟨expiresAt, hmem, hle⟩ := hs.certificates_inTime granted hgranted
      exact ⟨expiresAt, List.mem_cons_of_mem _ hmem, hle⟩

theorem Accounted.request {s s' : IssuerState forge} (hs : Accounted issuer maxEntries s)
    (req : CertSignRequest) (ipAddresses : List String) (time : Int)
    (h : s.step issuer (.request req ipAddresses time) = some s') :
    Accounted issuer maxEntries s' := by
  obtain rfl := Option.some.inj h
  cases hget : s.nonceStore.nonces.get req.nonce with
  | none =>
      have hconsume : s.nonceStore.consume time req.nonce = (s.nonceStore, false) := by
        rw [NonceStore.consume, hget]
      rw [hconsume]
      exact hs
  | some expiresAt =>
      have hconsume : s.nonceStore.consume time req.nonce =
          ({ s.nonceStore with
            nonces := s.nonceStore.nonces.delete req.nonce
            bounded := (s.nonceStore.nonces.size_delete_le req.nonce).trans s.nonceStore.bounded },
            decide (time ≤ expiresAt)) := by
        rw [NonceStore.consume, hget]
      rw [hconsume]
      -- the nonce leaves the store, and the request waits if it is in time
      refine
        { maxEntries_eq := hs.maxEntries_eq
          count_le := fun nonce => ?_
          stored := fun nonce expiresAt hstored =>
            hs.stored nonce expiresAt (InsertionMap.get_of_get_delete hstored).2
          pending_inTime := fun attempt hattempt => ?_
          certificates_inTime := hs.certificates_inTime
          proven := hs.proven }
      · have hold := hs.count_le nonce
        dsimp only
        by_cases hnonce : nonce = req.nonce
        · -- the stored nonce becomes the pending one, or is lost
          rw [hnonce, hget, Option.isSome_some, if_pos rfl] at hold
          rw [hnonce, InsertionMap.get_delete_self, Option.isSome_none, if_neg Bool.false_ne_true]
          split_ifs with hlive
          · rw [List.countP_cons]
            split_ifs <;> omega
          · omega
        · rw [InsertionMap.get_delete_of_ne _ hnonce]
          by_cases hlive : decide (time ≤ expiresAt) = true
          · rw [if_pos hlive, List.countP_cons, if_neg (by simpa using Ne.symm hnonce)]
            exact hold
          · rw [if_neg hlive]
            exact hold
      · by_cases hlive : time ≤ expiresAt
        · rw [if_pos (decide_eq_true hlive)] at hattempt
          rcases List.mem_cons.mp hattempt with rfl | hattempt
          · exact ⟨expiresAt, hs.stored _ _ hget, hlive⟩
          · exact hs.pending_inTime attempt hattempt
        · rw [if_neg (by simpa using hlive)] at hattempt
          exact hs.pending_inTime attempt hattempt

theorem Accounted.answer {s s' : IssuerState forge} (hs : Accounted issuer maxEntries s)
    {index : Nat} {serial : String} {now : Int}
    (h : s.answer issuer index serial now = some s') : Accounted issuer maxEntries s' := by
  unfold IssuerState.answer at h
  split at h
  · cases h
  · next attempt hattempt =>
      obtain rfl := Option.some.inj h
      have hmem : attempt ∈ s.pending := List.mem_of_getElem? hattempt
      obtain ⟨hindex, hattempt⟩ := List.getElem?_eq_some_iff.mp hattempt
      have hperm : (attempt :: s.pending.eraseIdx index).Perm s.pending :=
        hattempt ▸ List.getElem_cons_eraseIdx_perm hindex
      have hrest : ∀ other ∈ s.pending.eraseIdx index, other ∈ s.pending :=
        fun other hother => List.mem_of_mem_eraseIdx hother
      have hcount : ∀ nonce, s.pending.countP (·.req.nonce = nonce) =
          (s.pending.eraseIdx index).countP (·.req.nonce = nonce) +
            if attempt.req.nonce = nonce then 1 else 0 := by
        intro nonce
        rw [← hperm.countP_eq, List.countP_cons]
        simp only [decide_eq_true_eq]
      -- the request that waited is answered by a certificate or not at all
      cases hissued : issuer.issueCert attempt.req attempt.ipAddresses serial now with
      | error message =>
          exact
            { hs with
              count_le := fun nonce => by
                have hold := hs.count_le nonce
                rw [hcount nonce] at hold
                dsimp only
                omega
              pending_inTime := fun other hother => hs.pending_inTime other (hrest other hother) }
      | ok signed =>
          refine
            { hs with
              count_le := fun nonce => ?_
              pending_inTime := fun other hother => hs.pending_inTime other (hrest other hother)
              certificates_inTime := fun granted hgranted => ?_
              proven := fun granted hgranted => ?_ }
          · have hold := hs.count_le nonce
            rw [hcount nonce] at hold
            rw [List.countP_cons]
            simp only [decide_eq_true_eq]
            omega
          · rcases List.mem_cons.mp hgranted with rfl | hgranted
            · exact hs.pending_inTime attempt hmem
            · exact hs.certificates_inTime granted hgranted
          · rcases List.mem_cons.mp hgranted with rfl | hgranted
            · exact proven_of_issueCert hissued
            · exact hs.proven granted hgranted

theorem accounted_of_reachable {s : IssuerState forge}
    (hs : (issuanceMachine issuer ttlMs maxEntries).Reachable s) :
    Accounted issuer maxEntries s := by
  refine Machine.Reachable.invariant ?_ (fun s action s' hI hstep => ?_) hs
  · exact
      { maxEntries_eq := rfl
        count_le := fun _ => le_rfl
        stored := fun _ _ hget => nomatch hget
        pending_inTime := fun _ hattempt => nomatch hattempt
        certificates_inTime := fun _ hgranted => nomatch hgranted
        proven := fun _ hgranted => nomatch hgranted }
  · cases action with
    | issue gcTime time nonce => exact hI.issue gcTime time nonce hstep
    | request req ipAddresses time => exact hI.request req ipAddresses time hstep
    | answer index serial now => exact hI.answer hstep

/-- A nonce has at most as many certificates as it was given out, asked for in its time and
proven; no message counts for other fields, and the store does not outgrow its bound. -/
theorem issuance_singleUse {s : IssuerState forge}
    (hs : (issuanceMachine issuer ttlMs maxEntries).Reachable s) :
    (∀ nonce, s.certificates.countP (·.attempt.req.nonce = nonce) ≤
      s.nonces.countP (·.1 = nonce)) ∧
    (∀ granted ∈ s.certificates,
      (∃ expiresAt, (granted.attempt.req.nonce, expiresAt) ∈ s.nonces ∧
        granted.attempt.consumedAt ≤ expiresAt) ∧
      Proven issuer granted.attempt.req granted.signed.certificate) ∧
    (∀ fields fields' : CertPopFields, fields.Fit → fields'.Fit →
      buildCertPopMessage fields = buildCertPopMessage fields' → fields = fields') ∧
    s.nonceStore.nonces.size ≤ maxEntries := by
  have haccounted := accounted_of_reachable hs
  refine ⟨fun nonce => ?_, fun granted hgranted => ?_, fun _ _ => buildCertPopMessage_injective, ?_⟩
  · have hcount := haccounted.count_le nonce
    omega
  · exact ⟨haccounted.certificates_inTime granted hgranted, haccounted.proven granted hgranted⟩
  · exact haccounted.maxEntries_eq ▸ s.nonceStore.bounded

/-- Keys of the one peer `P`, whose signatures are all good. -/
def demoKeys : PeerKeys where
  PublicKey := Bytes
  publicKeyFromRaw := .ok
  type := fun _ => "Ed25519"
  peerIdFromPublicKey := fun _ => "P"
  verify := fun _ _ _ => .ok true
  toUpperCase := id

/-- Requests whose text is their key, and certificates without signatures. -/
def demoForge : Forge where
  Key := String
  CaKey := Unit
  certificationRequestFromPem := fun csrPem => .ok ⟨.ok true, some csrPem, none⟩
  publicKeyToDer := fun key => .ok (encodeUtf8 key.toList)
  certificateFromPem := fun _ => .ok ⟨[], []⟩
  privateKeyFromPem := fun _ => .ok ()
  bytesFromIP := fun _ => some []
  sign := fun _ _ => .ok []
  certificateToPem := fun _ _ => ""
  sha256Hex := fun _ => "AB:CD"
  addDays := fun now days => now + days * 86400000

def demoIssuer : CertIssuer demoForge := ⟨demoKeys, ⟨"ca", "key"⟩, "AB:CD", rfl⟩

/-- A request with a key of 32 bytes. -/
def demoRequest : CertSignRequest :=
  ⟨"P", "AAAAAAAAAAAAAAAAAAAAAAAAAAAAAAAAAAAAAAAAAAA=", "spiffe://thinklocal/node/P", "n", "key", ""⟩

theorem issuance_singleUse_once :
    ∃ s, (issuanceMachine demoIssuer 10 1).runFrom (issuanceMachine demoIssuer 10 1).init
        [.issue 0 0 "n", .request demoRequest [] 10, .answer 0 "1" 12] = some s ∧
      s.certificates.length = 1 ∧
      ∀ granted ∈ s.certificates, Proven demoIssuer granted.attempt.req granted.signed.certificate := by
  have hrun : ((issuanceMachine demoIssuer 10 1).runFrom (issuanceMachine demoIssuer 10 1).init
      [.issue 0 0 "n", .request demoRequest [] 10, .answer 0 "1" 12]).map (·.certificates.length) =
        some 1 := by
    decide +kernel
  obtain ⟨s, hs, hone⟩ := Option.map_eq_some_iff.mp hrun
  have hsingle := issuance_singleUse (Machine.reachable_of_runFrom hs)
  exact ⟨s, hs, hone, fun granted hgranted => (hsingle.2.1 granted hgranted).2⟩

end ThinkLocal.Issuance
