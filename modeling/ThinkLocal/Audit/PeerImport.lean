import ThinkLocal.Audit.AuditLog
import ThinkLocal.Js.Utf8

/-!
# Imports of signed events

A peer event is stored once for each `entry_hash`, a field that its sender chooses: the signature does
not cover it and no one computes it again.
-/

namespace ThinkLocal.Audit

open Foundation Js AuditLog

/-- A call of `importPeerEvent` with a public key. -/
structure KeyedImport where
  peer : PeerEvent
  peerPublicKeyPem : String
  given : peerPublicKeyPem ≠ ""

/-- What a sender signs, with the signature. -/
abbrev SignedEvent := AuditEvent × String

def KeyedImport.signed (call : KeyedImport) : SignedEvent := (call.peer.event, call.peer.signature)

def PeerAuditRow.signed (row : PeerAuditRow) : SignedEvent := (row.event, row.signature)

variable (K : Crypto)

/-- The signature is valid under the key. -/
def KeyedImport.genuine (call : KeyedImport) : Bool :=
  signatureValid K call.peer call.peerPublicKeyPem

def importKeyed (log : AuditLog) (call : KeyedImport) : AuditLog × Bool :=
  log.importPeerEvent K call.peer (some call.peerPublicKeyPem)

/-- The log after calls one after another. -/
def importAll (log : AuditLog) (calls : List KeyedImport) : AuditLog :=
  calls.foldl (fun log call => (importKeyed K log call).1) log

/-- A log on a database without events of peers. -/
def withoutPeerEvents (events : List AuditRow) (nextId : Nat) (privateKeyPem agentId : String) :
    AuditLog := openLog ⟨events, nextId, [], 1⟩ privateKeyPem agentId

/-- No signed event is in two rows. -/
def StoredOnce (log : AuditLog) : Prop := (log.db.peerEvents.map PeerAuditRow.signed).Nodup

/-- If a genuine event is refused, the row with its hash is this event. -/
def NotDisplaced (log : AuditLog) (call : KeyedImport) : Prop :=
  call.genuine K = true → (importKeyed K log call).2 = false →
    ∀ row ∈ log.db.peerEvents, row.entry_hash = call.peer.entry_hash → row.signed = call.signed

/-- The hashes of genuine events tell them apart, and each has one hash only. -/
def HashesMatch (calls : List KeyedImport) : Prop :=
  ∀ call ∈ calls, call.genuine K = true → ∀ other ∈ calls, other.genuine K = true →
    (call.peer.entry_hash = other.peer.entry_hash ↔ call.signed = other.signed)

/-! ## One call -/

variable {K} {log : AuditLog} {call : KeyedImport} {calls before : List KeyedImport}

theorem importKeyed_of_not_genuine (h : call.genuine K = false) :
    importKeyed K log call = (log, false) := by
  rw [KeyedImport.genuine] at h
  simp [importKeyed, importPeerEvent, call.given, h]

theorem importKeyed_of_mem (h : call.peer.entry_hash ∈
    log.db.peerEvents.map PeerAuditRow.entry_hash) : importKeyed K log call = (log, false) := by
  simp only [importKeyed, importPeerEvent]
  split_ifs
  · rfl
  · rfl

/-- A genuine event with a new hash is added. -/
theorem importKeyed_of_new (hgenuine : call.genuine K = true)
    (hnew : call.peer.entry_hash ∉ log.db.peerEvents.map PeerAuditRow.entry_hash) :
    (importKeyed K log call).2 = true ∧ ∃ row : PeerAuditRow, row.signed = call.signed ∧
      row.entry_hash = call.peer.entry_hash ∧
      (importKeyed K log call).1.db.peerEvents = log.db.peerEvents ++ [row] := by
  rw [KeyedImport.genuine] at hgenuine
  rw [importKeyed, importPeerEvent, if_neg (by simp [call.given, hgenuine]), if_neg hnew]
  exact ⟨rfl, _, rfl, rfl, rfl⟩

/-! ## Sequences of calls -/

theorem importAll_concat :
    importAll K log (before ++ [call]) = (importKeyed K (importAll K log before) call).1 := by
  rw [importAll, List.foldl_append]
  rfl

/-- The rows of a table that calls have filled. -/
structure Filled (K : Crypto) (calls : List KeyedImport) (log : AuditLog) : Prop where
  unique : (log.db.peerEvents.map PeerAuditRow.entry_hash).Nodup
  imported : ∀ row ∈ log.db.peerEvents, ∃ call ∈ calls, call.genuine K = true ∧
    row.signed = call.signed ∧ row.entry_hash = call.peer.entry_hash

theorem Filled.importKeyed (h : Filled K calls log) (call : KeyedImport) :
    Filled K (calls ++ [call]) (importKeyed K log call).1 := by
  have hkept : ∀ row ∈ log.db.peerEvents, ∃ other ∈ calls ++ [call], other.genuine K = true ∧
      row.signed = other.signed ∧ row.entry_hash = other.peer.entry_hash := by
    intro row hrow
    obtain ⟨other, hother, hfacts⟩ := h.imported row hrow
    exact ⟨other, List.mem_append_left _ hother, hfacts⟩
  cases hgenuine : call.genuine K with
  | false =>
      rw [importKeyed_of_not_genuine hgenuine]
      exact ⟨h.unique, hkept⟩
  | true =>
      -- a hash that is in the table is not imported again
      by_cases hmem : call.peer.entry_hash ∈ log.db.peerEvents.map PeerAuditRow.entry_hash
      · rw [importKeyed_of_mem hmem]
        exact ⟨h.unique, hkept⟩
      · obtain ⟨-, row, hsigned, hhash, hrows⟩ := importKeyed_of_new hgenuine hmem
        constructor
        · rw [hrows, List.map_append, List.map_singleton, hhash]
          exact List.nodup_append.mpr ⟨h.unique, List.nodup_singleton _, by
            intro hash hmem' hash' hhash'
            rw [List.mem_singleton.mp hhash']
            rintro rfl
            exact hmem hmem'⟩
        · intro row' hrow'
          rw [hrows] at hrow'
          rcases List.mem_append.mp hrow' with hrow' | hrow'
          · exact hkept row' hrow'
          · obtain rfl := List.mem_singleton.mp hrow'
            exact ⟨call, List.mem_append_right _ List.mem_cons_self, hgenuine, hsigned, hhash⟩

theorem filled_importAll (hempty : log.db.peerEvents = []) (calls : List KeyedImport) :
    Filled K calls (importAll K log calls) := by
  induction calls using List.reverseRecOn with
  | nil =>
      have hrows : (importAll K log []).db.peerEvents = [] := hempty
      exact ⟨by simp [hrows], by simp [hrows]⟩
  | append_singleton calls call ih =>
      rw [importAll_concat]
      exact ih.importKeyed call

/-- With matching hashes no signed event is in two rows. -/
theorem Filled.storedOnce (h : Filled K before log) (hmatch : HashesMatch K calls)
    (hbefore : before ⊆ calls) : StoredOnce log := by
  refine List.Nodup.map_on (fun row hrow other hother hsame => ?_) (List.Nodup.of_map _ h.unique)
  obtain ⟨call, hcall, hgenuine, hsigned, hhash⟩ := h.imported row hrow
  obtain ⟨call', hcall', hgenuine', hsigned', hhash'⟩ := h.imported other hother
  have hhashes : row.entry_hash = other.entry_hash := by
    rw [hhash, hhash']
    refine (hmatch call (hbefore hcall) hgenuine call' (hbefore hcall') hgenuine').mpr ?_
    rw [← hsigned, ← hsigned', hsame]
  exact List.inj_on_of_nodup_map h.unique hrow hother hhashes

theorem Filled.notDisplaced (h : Filled K before log) (hmatch : HashesMatch K calls)
    (hbefore : before ⊆ calls) (hcall : call ∈ calls) : NotDisplaced K log call := by
  intro hgenuine _ row hrow hhash
  obtain ⟨other, hother, hgenuine', hsigned, hhash'⟩ := h.imported row hrow
  rw [hsigned]
  exact (hmatch other (hbefore hother) hgenuine' call hcall hgenuine).mp (hhash'.symm.trans hhash)

/-- Rows stay, and a genuine event that is not displaced has one after its call. -/
theorem stored_of_notDisplaced
    (h : ∀ before call, before ++ [call] <+: calls →
      NotDisplaced K (importAll K log before) call) :
    ∀ call ∈ calls, call.genuine K = true → ∃ row ∈ (importAll K log calls).db.peerEvents,
      row.signed = call.signed ∧ row.entry_hash = call.peer.entry_hash := by
  induction calls using List.reverseRecOn with
  | nil => exact fun call hcall => nomatch hcall
  | append_singleton calls last ih =>
      have hkept : ∀ row ∈ (importAll K log calls).db.peerEvents,
          row ∈ (importAll K log (calls ++ [last])).db.peerEvents := by
        intro row hrow
        rw [importAll_concat]
        cases hgenuine : last.genuine K with
        | false => rwa [importKeyed_of_not_genuine hgenuine]
        | true =>
            by_cases hmem : last.peer.entry_hash ∈
                (importAll K log calls).db.peerEvents.map PeerAuditRow.entry_hash
            · rwa [importKeyed_of_mem hmem]
            · obtain ⟨-, added, -, -, hrows⟩ := importKeyed_of_new hgenuine hmem
              rw [hrows]
              exact List.mem_append_left _ hrow
      intro call hcall hgenuine
      rcases List.mem_append.mp hcall with hcall | hcall
      · obtain ⟨row, hrow, hfacts⟩ := ih (fun before call hstart =>
          h before call (hstart.trans (List.prefix_append _ _))) call hcall hgenuine
        exact ⟨row, hkept row hrow, hfacts⟩
      · obtain rfl := List.mem_singleton.mp hcall
        by_cases hmem : call.peer.entry_hash ∈
            (importAll K log calls).db.peerEvents.map PeerAuditRow.entry_hash
        · -- it was refused, so the row with its hash is the event
          obtain ⟨row, hrow, hhash⟩ := List.mem_map.mp hmem
          have hrefused : (importKeyed K (importAll K log calls) call).2 = false := by
            rw [importKeyed_of_mem hmem]
          exact ⟨row, hkept row hrow,
            h calls call List.prefix_rfl hgenuine hrefused row hrow hhash, hhash⟩
        · obtain ⟨-, row, hsigned, hhash, hrows⟩ := importKeyed_of_new hgenuine hmem
          rw [importAll_concat, hrows]
          exact ⟨row, List.mem_append_right _ List.mem_cons_self, hsigned, hhash⟩

/-- Each signed event is stored at most once and none is displaced exactly if the hashes of the genuine
events match the events. -/
theorem imports_idempotent_iff (K : Crypto) (events : List AuditRow) (nextId : Nat)
    (privateKeyPem agentId : String) (calls : List KeyedImport) :
    (∀ before call, before ++ [call] <+: calls →
      NotDisplaced K (importAll K (withoutPeerEvents events nextId privateKeyPem agentId) before)
        call ∧
      StoredOnce (importAll K (withoutPeerEvents events nextId privateKeyPem agentId)
        (before ++ [call]))) ↔ HashesMatch K calls := by
  have hfilled : ∀ calls, Filled K calls
      (importAll K (withoutPeerEvents events nextId privateKeyPem agentId) calls) :=
    filled_importAll rfl
  constructor
  · intro h call hcall hgenuine other hother hgenuine'
    -- a genuine event is never displaced, so its row is still there at the end
    have hstored := stored_of_notDisplaced fun before call hstart => (h before call hstart).1
    obtain ⟨row, hrow, hsigned, hhash⟩ := hstored call hcall hgenuine
    obtain ⟨row', hrow', hsigned', hhash'⟩ := hstored other hother hgenuine'
    -- the whole list is a start of itself
    have hlast : StoredOnce
        (importAll K (withoutPeerEvents events nextId privateKeyPem agentId) calls) := by
      have hne := List.ne_nil_of_mem hcall
      rw [← List.dropLast_append_getLast hne]
      exact (h calls.dropLast (calls.getLast hne)
        (by rw [List.dropLast_append_getLast hne])).2
    rw [← hsigned, ← hsigned', ← hhash, ← hhash']
    constructor
    · intro hsame
      rw [List.inj_on_of_nodup_map (hfilled calls).unique hrow hrow' hsame]
    · intro hsame
      rw [List.inj_on_of_nodup_map hlast hrow hrow' hsame]
  · intro hmatch before call hstart
    have hsubset : before ⊆ calls := fun c hc => hstart.subset (List.mem_append_left _ hc)
    exact ⟨(hfilled before).notDisplaced hmatch hsubset
        (hstart.subset (List.mem_append_right _ List.mem_cons_self)),
      (hfilled (before ++ [call])).storedOnce hmatch hstart.subset⟩

/-! ## Hashes that a sender chooses -/

/-- A signed event under two hashes gets two rows. -/
theorem not_storedOnce {call' : KeyedImport} (hgenuine : call.genuine K = true)
    (hgenuine' : call'.genuine K = true) (hempty : log.db.peerEvents = [])
    (hsame : call.signed = call'.signed) (hne : call'.peer.entry_hash ≠ call.peer.entry_hash) :
    ¬ StoredOnce (importAll K log [call, call']) := by
  have hnew : call.peer.entry_hash ∉ log.db.peerEvents.map PeerAuditRow.entry_hash := by
    simp [hempty]
  obtain ⟨-, row, hsigned, hhash, hrows⟩ := importKeyed_of_new hgenuine hnew
  have hnew' : call'.peer.entry_hash ∉
      (importKeyed K log call).1.db.peerEvents.map PeerAuditRow.entry_hash := by
    simp [hrows, hempty, hhash, hne]
  obtain ⟨-, row', hsigned', -, hrows'⟩ := importKeyed_of_new hgenuine' hnew'
  have hboth : (importAll K log [call, call']).db.peerEvents = [row, row'] := by
    rw [hrows, hempty] at hrows'
    exact hrows'
  intro honce
  rw [StoredOnce, hboth, List.map_cons, List.map_singleton, hsigned, hsigned', hsame] at honce
  exact (List.nodup_cons.mp honce).1 List.mem_cons_self

/-- An event whose hash is taken by another one is refused. -/
theorem not_notDisplaced {call' : KeyedImport} (hgenuine : call.genuine K = true)
    (hgenuine' : call'.genuine K = true) (hempty : log.db.peerEvents = [])
    (hhash' : call.peer.entry_hash = call'.peer.entry_hash) (hne : call.signed ≠ call'.signed) :
    ¬ NotDisplaced K (importAll K log [call]) call' := by
  have hnew : call.peer.entry_hash ∉ log.db.peerEvents.map PeerAuditRow.entry_hash := by
    simp [hempty]
  obtain ⟨-, row, hsigned, hhash, hrows⟩ := importKeyed_of_new hgenuine hnew
  have hmem : row ∈ (importAll K log [call]).db.peerEvents :=
    hrows ▸ List.mem_append_right _ List.mem_cons_self
  have hrefused : (importKeyed K (importAll K log [call]) call').2 = false :=
    congrArg Prod.snd (importKeyed_of_mem (List.mem_map.mpr ⟨row, hmem, hhash.trans hhash'⟩))
  intro hkept
  exact hne (hsigned.symm.trans (hkept hgenuine' hrefused row hmem (hhash.trans hhash')))

/-- A scheme for tests, in which a signature is what is signed. -/
def textCrypto : Crypto where
  signData _ content := some content
  verifySignature _ content sig := some (sig = content)
  sha256Hex content := String.ofList (decodeUtf8 content)

/-- The import of an event of a type under a hash. -/
def signedImport (event_type entry_hash : String) : KeyedImport where
  peer :=
    { event := ⟨"2026-01-01T00:00:00.000Z", event_type, "a", none, none, none, none⟩
      signature := toBase64 (signedBytes
        ⟨"2026-01-01T00:00:00.000Z", event_type, "a", none, none, none, none⟩)
      entry_hash }
  peerPublicKeyPem := "key"
  given := by decide

def emptyLog : AuditLog := withoutPeerEvents [] 1 "private" "b"

theorem genuine_signedImport (event_type entry_hash : String) :
    (signedImport event_type entry_hash).genuine textCrypto = true := by
  rw [KeyedImport.genuine, signatureValid, signedImport, fromBase64_toBase64]
  simp [textCrypto]

/-- A signed event under two hashes is stored twice, and an event whose hash is taken is refused. -/
theorem signed_event_twice :
    ((signedImport "PEER_JOIN" "h").genuine textCrypto = true ∧
      (signedImport "PEER_JOIN" "i").genuine textCrypto = true ∧
      ¬ StoredOnce (importAll textCrypto emptyLog
        [signedImport "PEER_JOIN" "h", signedImport "PEER_JOIN" "i"])) ∧
    ((signedImport "PEER_LEAVE" "h").genuine textCrypto = true ∧
      ¬ NotDisplaced textCrypto (importAll textCrypto emptyLog [signedImport "PEER_JOIN" "h"])
        (signedImport "PEER_LEAVE" "h")) := by
  have hjoin := genuine_signedImport "PEER_JOIN" "h"
  have hleave := genuine_signedImport "PEER_LEAVE" "h"
  have hagain := genuine_signedImport "PEER_JOIN" "i"
  refine ⟨⟨hjoin, hagain, not_storedOnce hjoin hagain rfl rfl (by decide)⟩, hleave,
    not_notDisplaced hjoin hleave rfl rfl fun hsame => ?_⟩
  exact absurd (congrArg (fun signed => signed.1.event_type) hsame)
    (by decide : ¬ "PEER_JOIN" = "PEER_LEAVE")

end ThinkLocal.Audit
