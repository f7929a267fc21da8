import ThinkLocal.Foundation.KeyedEntries
import ThinkLocal.Mesh.SubjectAltName
import ThinkLocal.Spiffe.SpiffeUri

/-!
# Pins of server identities

`mesh-server-identity.ts` and `server-identity-pin.ts`: an outgoing connection accepts the certificate
of a server by its SPIFFE URIs, and the identity that a host shows first is enforced afterwards.
-/

namespace ThinkLocal.Mesh

open Foundation Js Spiffe

/-- A daemon identity in normal form. -/
structure NormalId where
  val : String
  normal : normalizeAgentId val = .ok val
deriving DecidableEq

/-- `normalizeAgentId`, where it does not throw. -/
def normalId (uri : String) : Option NormalId :=
  match h : normalizeAgentId uri with
  | .ok id => some ⟨id, normalizeAgentId_idem h⟩
  | .error _ => none

/-- The SANs of a certificate that are identities of the trust domain. -/
def normalizedIds (subjectaltname : Option String) : List NormalId :=
  (spiffeUrisFromSubjectAltName subjectaltname).filterMap normalId

def jsonTexts (texts : List String) : String := Data.jsonArray (texts.map Data.jsonString)

/-- The message of the error, if there is one. -/
def verifyMeshServerIdentity (host : String) (subjectaltname : Option String)
    (expectedSpiffeId : Option String) : Option String :=
  let sans := spiffeUrisFromSubjectAltName subjectaltname
  let normalized := normalizedIds subjectaltname
  if sans = [] then
    some ("mesh-server-identity: kein SPIFFE-URI-SAN im Peer-Cert für " ++ host)
  else if normalized = [] then
    some ("mesh-server-identity: keine gültige thinklocal-SPIFFE-SAN für " ++ host ++ " (SANs: " ++
      jsonTexts sans ++ ")")
  else
    match expectedSpiffeId with
    | none => none
    | some uri =>
        match normalId uri with
        | none =>
            some ("mesh-server-identity: expectedSpiffeId ist keine gültige " ++
              "thinklocal-SPIFFE-Identität: " ++ uri)
        | some expected =>
            if expected ∈ normalized then none
            else
              some ("mesh-server-identity: Cert-SANs " ++ jsonTexts (normalized.map NormalId.val) ++
                " matchen die erwartete Identität " ++ expected.val ++ " für " ++ host ++ " nicht")

/-! ## The pins -/

/-- The identity under each host. -/
abbrev ServerIdentityPinStore := InsertionMap String NormalId

inductive PinOutcome
  | pinned
  | match
  | conflict

def observe (store : ServerIdentityPinStore) (host : String) (id : NormalId) :
    PinOutcome × ServerIdentityPinStore :=
  match store.get host with
  | none => (.pinned, store.set host id)
  | some current => (if current = id then .match else .conflict, store)

/-- The identity of a certificate that has exactly one. -/
def singleNormalizedIdFromCert (subjectaltname : Option String) : Option NormalId :=
  match (normalizedIds subjectaltname).dedup with
  | [only] => some only
  | _ => none

/-- The function that `makePinningMeshCheckServerIdentity` builds, with the store after the call. -/
def checkServerIdentity (store : ServerIdentityPinStore) (host : String)
    (subjectaltname : Option String) : Option String × ServerIdentityPinStore :=
  let expected := store.get host
  match verifyMeshServerIdentity host subjectaltname (expected.map NormalId.val) with
  | some error => (some error, store)
  | none =>
      match expected, singleNormalizedIdFromCert subjectaltname with
      | none, some id => (none, (observe store host id).2)
      | _, _ => (none, store)

/-- The stores after a sequence of handshakes, each with a host and a `subjectaltname`. -/
def storeAfter (store : ServerIdentityPinStore) (handshakes : List (String × Option String)) :
    ServerIdentityPinStore :=
  handshakes.foldl (fun store h => (checkServerIdentity store h.1 h.2).2) store

/-! ## Trust on first use -/

variable {store : ServerIdentityPinStore} {host : String} {san : Option String} {id : NormalId}

theorem normalId_val (id : NormalId) : normalId id.val = some id := by
  unfold normalId
  split
  · next text h =>
      obtain rfl := Except.ok.inj (id.normal.symm.trans h)
      rfl
  · next h => rw [id.normal] at h; cases h

theorem normalId_eq_some {uri : String} (h : normalId uri = some id) :
    normalizeAgentId uri = .ok id.val := by
  unfold normalId at h
  split at h
  · next text hok =>
      obtain rfl := Option.some.inj h
      exact hok
  · cases h

theorem normalizedIds_of_single (h : singleNormalizedIdFromCert san = some id) :
    id ∈ normalizedIds san := by
  unfold singleNormalizedIdFromCert at h
  split at h
  · next only hdedup =>
      obtain rfl := Option.some.inj h
      rw [← List.mem_dedup, hdedup]
      exact List.mem_singleton_self only
  · cases h

/-- Without a pin a certificate is accepted if it has an identity. -/
theorem verify_of_unpinned (host : String) (san : Option String) :
    verifyMeshServerIdentity host san none = none ↔ normalizedIds san ≠ [] := by
  unfold verifyMeshServerIdentity
  dsimp only
  split_ifs with hsans hids
  · simp [normalizedIds, hsans]
  · simp [hids]
  · simp [hids]

/-- With a pin it is accepted if it has that identity. -/
theorem verify_of_pinned (host : String) (san : Option String) (id : NormalId) :
    verifyMeshServerIdentity host san (some id.val) = none ↔ id ∈ normalizedIds san := by
  unfold verifyMeshServerIdentity
  dsimp only
  rw [normalId_val]
  split_ifs with hsans hids
  · simp [normalizedIds, hsans]
  · simp [hids]
  · simp

/-- A host shows a certificate. -/
def serverFirstUse : FirstUse NormalId (Option String) where
  trusts san := normalizedIds san ≠ []
  fits id san := id ∈ normalizedIds san
  identity := singleNormalizedIdFromCert
  trusts_of_identity _ _ h := decide_eq_true (List.ne_nil_of_mem (normalizedIds_of_single h))

/-- The handshake is a presentation: it is accepted without an error. -/
theorem checkServerIdentity_eq (store : ServerIdentityPinStore) (host : String)
    (san : Option String) :
    ((checkServerIdentity store host san).1.isNone, (checkServerIdentity store host san).2) =
      serverFirstUse.present store host san := by
  cases hpin : store.get host with
  | some id =>
      rw [FirstUse.present_of_pinned hpin]
      have hverify := verify_of_pinned host san id
      rw [checkServerIdentity, hpin]
      dsimp only
      rw [Option.map_some]
      cases herror : verifyMeshServerIdentity host san (some id.val) with
      | none => simp [serverFirstUse, hverify.mp herror]
      | some error =>
          have hnot : id ∉ normalizedIds san := fun hmem => by
            rw [hverify.mpr hmem] at herror
            cases herror
          simp [serverFirstUse, hnot]
  | none =>
      have hverify := verify_of_unpinned host san
      rw [checkServerIdentity, hpin, FirstUse.present, hpin]
      dsimp only
      rw [Option.map_none]
      cases herror : verifyMeshServerIdentity host san none with
      | none =>
          -- a first certificate with one identity is pinned, with several it is accepted only
          cases hid : singleNormalizedIdFromCert san with
          | none => simp [serverFirstUse, hverify.mp herror, hid]
          | some id => simp [serverFirstUse, hverify.mp herror, hid, observe, hpin]
      | some error =>
          have hnil : normalizedIds san = [] := by
            by_contra hne
            rw [hverify.mpr hne] at herror
            cases herror
          have hsingle : singleNormalizedIdFromCert san = none := by
            rw [singleNormalizedIdFromCert, hnil]
            rfl
          simp [serverFirstUse, hnil, hsingle]

theorem storeAfter_eq (store : ServerIdentityPinStore) (handshakes : List (String × Option String)) :
    storeAfter store handshakes = serverFirstUse.pinsAfter store handshakes := by
  have hstep : (fun (store : ServerIdentityPinStore) (h : String × Option String) =>
      (checkServerIdentity store h.1 h.2).2) =
        fun pins p => (serverFirstUse.present pins p.1 p.2).2 := by
    funext store h
    exact congrArg Prod.snd (checkServerIdentity_eq store h.1 h.2)
  rw [storeAfter, hstep, FirstUse.pinsAfter]

theorem storeAfter_append (store : ServerIdentityPinStore)
    (handshakes later : List (String × Option String)) :
    storeAfter store (handshakes ++ later) = storeAfter (storeAfter store handshakes) later :=
  List.foldl_append

/-- Under a pin a certificate is accepted if it has that identity. -/
theorem accepted_iff (hpin : store.get host = some id) :
    (checkServerIdentity store host san).1 = none ↔ id ∈ normalizedIds san := by
  have haccepted := congrArg Prod.fst (checkServerIdentity_eq store host san)
  rw [FirstUse.present_of_pinned hpin] at haccepted
  dsimp only at haccepted
  rw [← Option.isNone_iff_eq_none, haccepted]
  exact decide_eq_true_iff

/-- A certificate that is accepted under a pin has a SAN with that normal form. -/
theorem san_of_accepted (hpin : store.get host = some id)
    (h : (checkServerIdentity store host san).1 = none) :
    ∃ uri ∈ spiffeUrisFromSubjectAltName san, normalizeAgentId uri = .ok id.val := by
  obtain ⟨uri, huri, hnormal⟩ := List.mem_filterMap.mp ((accepted_iff hpin).mp h)
  exact ⟨uri, huri, normalId_eq_some hnormal⟩

theorem store_of_refused (h : (checkServerIdentity store host san).1 ≠ none) :
    (checkServerIdentity store host san).2 = store := by
  have heq := checkServerIdentity_eq store host san
  have hrefused : (serverFirstUse.present store host san).1 = false := by
    rw [← heq]
    simpa [Option.isSome_iff_ne_none] using h
  exact (congrArg Prod.snd heq).trans (FirstUse.present_of_refused hrefused)

/-- A certificate with one identity is accepted from a host without a pin, and pins it. -/
theorem pinned_by_single (hnone : store.get host = none)
    (hsingle : singleNormalizedIdFromCert san = some id) :
    (checkServerIdentity store host san).1 = none ∧
      (checkServerIdentity store host san).2.get host = some id := by
  have heq := checkServerIdentity_eq store host san
  constructor
  · have haccepted := (congrArg Prod.fst heq).trans (FirstUse.present_of_unpinned hnone)
    rw [serverFirstUse.trusts_of_identity san id hsingle] at haccepted
    simpa using haccepted
  · have hstore : (checkServerIdentity store host san).2 = (serverFirstUse.present store host san).2 :=
      congrArg Prod.snd heq
    rw [hstore, FirstUse.get_present, hnone, if_pos rfl]
    exact hsingle

/-- After any handshakes: a pin stays, what is accepted under it has a SAN of that normal form, what
is refused pins nothing, and a host is pinned to the identity of the first of its own handshakes that
has exactly one. -/
theorem pins_hold (handshakes : List (String × Option String)) (host : String)
    (san : Option String) :
    (∀ id later, (storeAfter .empty handshakes).get host = some id →
        (storeAfter .empty (handshakes ++ later)).get host = some id) ∧
      (∀ id, (storeAfter .empty handshakes).get host = some id →
        (checkServerIdentity (storeAfter .empty handshakes) host san).1 = none →
          ∃ uri ∈ spiffeUrisFromSubjectAltName san, normalizeAgentId uri = .ok id.val) ∧
      ((checkServerIdentity (storeAfter .empty handshakes) host san).1 ≠ none →
        (checkServerIdentity (storeAfter .empty handshakes) host san).2 =
          storeAfter .empty handshakes) ∧
      (∀ id, (storeAfter .empty handshakes).get host = none →
        singleNormalizedIdFromCert san = some id →
          (checkServerIdentity (storeAfter .empty handshakes) host san).1 = none ∧
            (checkServerIdentity (storeAfter .empty handshakes) host san).2.get host = some id) ∧
      (storeAfter .empty handshakes).get host =
        (handshakes.filter fun h => h.1 = host).findSome? fun h =>
          singleNormalizedIdFromCert h.2 := by
  refine ⟨fun id later hpin => ?_, fun id => san_of_accepted, store_of_refused,
    fun id => pinned_by_single, ?_⟩
  · rw [storeAfter_append, storeAfter_eq _ later]
    exact FirstUse.get_pinsAfter_of_pinned later hpin
  · rw [storeAfter_eq, FirstUse.get_pinsAfter, InsertionMap.get_empty, Option.none_or]
    rfl

/-- A host that has shown its identity, and then another node behind the same address. -/
theorem pins_hold_against_another :
    let host := "100.64.0.7"
    let first := some "URI:spiffe://thinklocal/host/a/agent/daemon, IP Address:10.0.0.7"
    let other := some "URI:spiffe://thinklocal/host/b/agent/daemon"
    ∃ id : NormalId, id.val = "spiffe://thinklocal/host/a/agent/daemon" ∧
      (storeAfter .empty [(host, first), (host, other), (host, first)]).get host = some id ∧
      (checkServerIdentity (storeAfter .empty [(host, first)]) host other).2.get host = some id ∧
      ∃ uri ∈ spiffeUrisFromSubjectAltName first, normalizeAgentId uri = .ok id.val := by
  intro host first other
  have hfirst : (singleNormalizedIdFromCert first).map NormalId.val =
      some "spiffe://thinklocal/host/a/agent/daemon" := by
    decide +kernel
  obtain ⟨id, hsingle, hval⟩ := Option.map_eq_some_iff.mp hfirst
  obtain ⟨-, -, -, hpins, -⟩ := pins_hold [] host first
  obtain ⟨-, hpinned⟩ := hpins id rfl hsingle
  obtain ⟨hstays, haccepted, -, -, -⟩ := pins_hold [(host, first)] host first
  obtain ⟨-, -, hrefused, -, -⟩ := pins_hold [(host, first)] host other
  have hother : (checkServerIdentity (storeAfter .empty [(host, first)]) host other).1 ≠ none := by
    have hids : (normalizedIds other).map NormalId.val =
        ["spiffe://thinklocal/host/b/agent/daemon"] := by decide +kernel
    intro haccepted'
    have hmem := List.mem_map_of_mem (f := NormalId.val) ((accepted_iff hpinned).mp haccepted')
    rw [hids, hval] at hmem
    exact absurd (List.mem_singleton.mp hmem) (by decide)
  have hagain := (accepted_iff hpinned).mpr (normalizedIds_of_single hsingle)
  refine ⟨id, hval, hstays id [(host, other), (host, first)] hpinned, ?_, haccepted id hpinned hagain⟩
  rw [hrefused hother]
  exact hpinned

end ThinkLocal.Mesh
