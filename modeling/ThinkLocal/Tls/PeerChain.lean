import Mathlib.Tactic

/-!
# Verifying a peer's chain

`verifyPeerCert` of `tls.ts` tests a certificate against one authority, `verifyPeerCertChain` a
chain of certificates against a list of trust anchors.  The certificates are read and their
signatures tested by `node-forge`.
-/

namespace ThinkLocal.Tls

structure BasicConstraints where
  /-- `cA === true`. -/
  cA : Bool
  pathLenConstraint : Option ℤ

/-- What `node-forge` offers.  Where a function throws, it has no answer. -/
structure Forge where
  Certificate : Type
  certificateFromPem : String → Option Certificate
  notBefore : Certificate → ℤ
  notAfter : Certificate → ℤ
  basicConstraints : Certificate → Option BasicConstraints
  /-- `issuer.verify(child)`. -/
  verify : Certificate → Certificate → Option Bool
  /-- `verifyCertificateChain(createCaStore(anchors), chain)`, with the clock that it reads. -/
  verifyCertificateChain : ℤ → List Certificate → List Certificate → Option Bool

namespace Forge

variable (forge : Forge)

/-- `bc.cA === true`. -/
def isCa (cert : forge.Certificate) : Bool :=
  (forge.basicConstraints cert).any BasicConstraints.cA

/-- The limit of an authority that sets one. -/
def pathLenLimit (cert : forge.Certificate) : Option ℤ :=
  match forge.basicConstraints cert with
  | some bc => if bc.cA then bc.pathLenConstraint else none
  | none => none

/-- `a.verify(cert)`, with `false` where that throws. -/
def issued (a cert : forge.Certificate) : Bool := (forge.verify a cert).getD false

/-- `now >= notBefore && now <= notAfter`. -/
def validAt (now : ℤ) (cert : forge.Certificate) : Bool :=
  forge.notBefore cert ≤ now && now ≤ forge.notAfter cert

end Forge

variable (forge : Forge) (now : ℤ)

def verifyPeerCert (caCertPem peerCertPem : String) : Bool :=
  let verdict : Option Bool := do
    let caCert ← forge.certificateFromPem caCertPem
    let peerCert ← forge.certificateFromPem peerCertPem
    let verified ← forge.verify caCert peerCert
    return verified && forge.validAt now peerCert && forge.validAt now caCert
  verdict.getD false

def enforcePathLenConstraint : List forge.Certificate → Bool
  | [] => true
  | cert :: rest =>
      match forge.pathLenLimit cert with
      | none => enforcePathLenConstraint rest
      | some limit =>
          if limit < (rest.countP forge.isCa : ℤ) then false else enforcePathLenConstraint rest

/-- The tests behind the chain check of `node-forge`. -/
def judgeAnchor (anchors chain : List forge.Certificate) : Bool :=
  match chain.getLast? with
  | none => false
  | some top =>
      match anchors.find? (forge.issued · top) with
      | none => false
      | some anchor =>
          if now < forge.notBefore anchor ∨ forge.notAfter anchor < now then false
          else enforcePathLenConstraint forge (anchor :: chain.reverse)

def verifyPeerCertChain (trustAnchorPems chainPems : List String) : Bool :=
  if trustAnchorPems.length = 0 ∨ chainPems.length = 0 then false
  else
    let verdict : Option Bool := do
      let anchors ← trustAnchorPems.mapM forge.certificateFromPem
      let chain ← chainPems.mapM forge.certificateFromPem
      let verified ← forge.verifyCertificateChain now anchors chain
      return if verified then judgeAnchor forge now anchors chain else false
    verdict.getD false

/-- Every authority of a path with a limit is followed by no more authorities than that. -/
def WithinLimits (path : List forge.Certificate) : Prop :=
  ∀ before cert after, path = before ++ cert :: after →
    ∀ limit, forge.pathLenLimit cert = some limit → (after.countP forge.isCa : ℤ) ≤ limit

/-- What `verifyCertificateChain` tests on a chain of one certificate. -/
structure Forge.ChecksLeaf : Prop where
  validAt_leaf : ∀ {now anchors leaf},
    forge.verifyCertificateChain now anchors [leaf] = some true → forge.validAt now leaf
  accepts : ∀ {now anchors anchor leaf}, forge.validAt now leaf → anchor ∈ anchors →
    forge.verify anchor leaf = some true →
    forge.verifyCertificateChain now anchors [leaf] = some true

/-- The text of an anchor that issued a certificate. -/
def IssuedBy (leaf : forge.Certificate) (anchorPem : String) : Bool :=
  (forge.certificateFromPem anchorPem).any (forge.issued · leaf)

/-- The text of a certificate in its window. -/
def ValidText (pem : String) : Bool := (forge.certificateFromPem pem).any (forge.validAt now)

/-- If a leaf and some anchor that issued it are in their windows, all anchors can be parsed, and
the first of them that issued the leaf is in its window. -/
def FirstIssuerValid (anchorPems : List String) (leafPem : String) : Prop :=
  ∀ leaf, forge.certificateFromPem leafPem = some leaf → forge.validAt now leaf →
    (∃ pem ∈ anchorPems, IssuedBy forge leaf pem ∧ ValidText forge now pem) →
      (∀ pem ∈ anchorPems, (forge.certificateFromPem pem).isSome) ∧
        ∀ pem, anchorPems.find? (IssuedBy forge leaf) = some pem → ValidText forge now pem

/-! ## Path lengths -/

theorem withinLimits_cons (cert : forge.Certificate) (rest : List forge.Certificate) :
    WithinLimits forge (cert :: rest) ↔
      (∀ limit, forge.pathLenLimit cert = some limit → (rest.countP forge.isCa : ℤ) ≤ limit) ∧
        WithinLimits forge rest := by
  constructor
  · intro h
    constructor
    · exact h [] cert rest rfl
    · intro before c after hpath
      subst hpath
      exact h (cert :: before) c after rfl
  · rintro ⟨hcert, hrest⟩ before c after hpath
    cases before with
    | nil =>
        obtain ⟨rfl, rfl⟩ := List.cons_eq_cons.mp hpath
        exact hcert
    | cons b before => exact hrest before c after (List.cons_eq_cons.mp hpath).2

theorem enforcePathLenConstraint_iff (path : List forge.Certificate) :
    enforcePathLenConstraint forge path = true ↔ WithinLimits forge path := by
  induction path with
  | nil =>
      apply iff_of_true rfl
      intro before cert after hpath
      simp at hpath
  | cons cert rest ih =>
      rw [withinLimits_cons, ← ih, enforcePathLenConstraint]
      cases hlimit : forge.pathLenLimit cert with
      | none => simp
      | some limit =>
          simp only [Option.some.injEq, forall_eq']
          split
          · next hlt => simp [hlt]
          · next hle => simp [not_lt.mp hle]

/-- An anchor without a limit and a leaf that is no authority make a path without limits. -/
theorem enforcePathLenConstraint_pair {anchor leaf : forge.Certificate}
    (hanchor : forge.pathLenLimit anchor = none) (hleaf : forge.isCa leaf = false) :
    enforcePathLenConstraint forge [anchor, leaf] = true := by
  have hlimit : forge.pathLenLimit leaf = none := by
    unfold Forge.isCa at hleaf
    unfold Forge.pathLenLimit
    cases hbc : forge.basicConstraints leaf with
    | none => rfl
    | some bc =>
        rw [hbc] at hleaf
        exact if_neg (Bool.eq_false_iff.mp hleaf)
  rw [enforcePathLenConstraint, hanchor]
  dsimp only
  rw [enforcePathLenConstraint, hlimit, enforcePathLenConstraint]

/-! ## Parsing a list of texts -/

section Parsing

variable {α β : Type} {parse : α → Option β}

variable (parse) in
theorem isSome_mapM_iff (xs : List α) :
    (xs.mapM parse).isSome ↔ ∀ x ∈ xs, (parse x).isSome := by
  induction xs with
  | nil => simp
  | cons x xs ih =>
      rw [List.mapM_cons, List.forall_mem_cons, ← ih]
      cases parse x <;> cases xs.mapM parse <;> simp

/-- The first result that satisfies a test is the result of the first text whose result does. -/
theorem find?_of_mapM {xs : List α} {ys : List β} (h : xs.mapM parse = some ys) (p : β → Bool) :
    ys.find? p = (xs.find? fun x => (parse x).any p).bind parse := by
  induction xs generalizing ys with
  | nil =>
      obtain rfl := Option.some.inj h
      rfl
  | cons x xs ih =>
      rw [List.mapM_cons] at h
      cases hx : parse x with
      | none => simp [hx] at h
      | some y =>
          cases hxs : xs.mapM parse with
          | none => simp [hx, hxs] at h
          | some tail =>
              obtain rfl : y :: tail = ys := by simpa [hx, hxs] using h
              cases hp : p y with
              | true => simp [hx, hp]
              | false => simp [hx, hp, ih hxs]

end Parsing

/-! ## The two verifications -/

variable {forge now} {anchorPems : List String} {leafPem : String}

theorem issuedBy_iff {leaf : forge.Certificate} {pem : String} :
    IssuedBy forge leaf pem = true ↔
      ∃ a, forge.certificateFromPem pem = some a ∧ forge.verify a leaf = some true := by
  unfold IssuedBy Forge.issued
  cases forge.certificateFromPem pem with
  | none => simp
  | some a => cases h : forge.verify a leaf <;> simp [h]

theorem verifyPeerCert_iff {pem : String} :
    verifyPeerCert forge now pem leafPem = true ↔
      ∃ leaf, forge.certificateFromPem leafPem = some leaf ∧ forge.validAt now leaf = true ∧
        IssuedBy forge leaf pem = true ∧ ValidText forge now pem = true := by
  unfold verifyPeerCert IssuedBy ValidText Forge.issued
  cases forge.certificateFromPem pem with
  | none => simp
  | some a =>
      cases forge.certificateFromPem leafPem with
      | none => simp
      | some leaf => cases hverify : forge.verify a leaf <;> simp [hverify, and_assoc, and_left_comm]

/-- An anchor is judged by whether the first issuer is in its window. -/
theorem judgeAnchor_iff {anchors : List forge.Certificate} {leaf : forge.Certificate}
    (hleaf : forge.isCa leaf = false)
    (hfirst : ∀ a, anchors.find? (forge.issued · leaf) = some a → forge.pathLenLimit a = none) :
    judgeAnchor forge now anchors [leaf] = true ↔
      ∃ a, anchors.find? (forge.issued · leaf) = some a ∧ forge.validAt now a = true := by
  unfold judgeAnchor
  dsimp only [List.getLast?_singleton]
  cases ha : anchors.find? (forge.issued · leaf) with
  | none => simp
  | some a =>
      have hpath := enforcePathLenConstraint_pair forge (hfirst a ha) hleaf
      simp [hpath, Forge.validAt]

/-- The first issuer among the parsed anchors is the first text whose certificate issued it. -/
theorem find?_issued {anchors : List forge.Certificate} {leaf a : forge.Certificate}
    (hparse : anchorPems.mapM forge.certificateFromPem = some anchors) :
    anchors.find? (forge.issued · leaf) = some a ↔
      ∃ pem, anchorPems.find? (IssuedBy forge leaf) = some pem ∧
        forge.certificateFromPem pem = some a := by
  rw [find?_of_mapM hparse, Option.bind_eq_some_iff]
  rfl

theorem verifyPeerCertChain_eq_true_iff :
    verifyPeerCertChain forge now anchorPems [leafPem] = true ↔
      ∃ anchors leaf, anchorPems.mapM forge.certificateFromPem = some anchors ∧
        forge.certificateFromPem leafPem = some leaf ∧
          forge.verifyCertificateChain now anchors [leaf] = some true ∧
            judgeAnchor forge now anchors [leaf] = true := by
  unfold verifyPeerCertChain
  cases anchorPems with
  | nil => simp [judgeAnchor]
  | cons pem pems =>
      rw [if_neg (by simp)]
      cases hparse : (pem :: pems).mapM forge.certificateFromPem with
      | none => simp
      | some anchors =>
          cases hleaf : forge.certificateFromPem leafPem with
          | none => simp [hleaf]
          | some leaf =>
              cases hverify : forge.verifyCertificateChain now anchors [leaf] <;>
                simp [hleaf, hverify]

theorem verifyPeerCertChain_iff (hforge : forge.ChecksLeaf)
    (hleaf : ∀ leaf, forge.certificateFromPem leafPem = some leaf → forge.isCa leaf = false)
    (hanchors : ∀ pem ∈ anchorPems, ∀ a, forge.certificateFromPem pem = some a →
      forge.pathLenLimit a = none) :
    verifyPeerCertChain forge now anchorPems [leafPem] = true ↔
      ∃ leaf, forge.certificateFromPem leafPem = some leaf ∧ forge.validAt now leaf = true ∧
        (∀ pem ∈ anchorPems, (forge.certificateFromPem pem).isSome) ∧
          ∃ pem, anchorPems.find? (IssuedBy forge leaf) = some pem ∧
            ValidText forge now pem = true := by
  -- an anchor without a limit allows a leaf below it
  have hlimit : ∀ {anchors leaf}, anchorPems.mapM forge.certificateFromPem = some anchors →
      ∀ a, anchors.find? (forge.issued · leaf) = some a → forge.pathLenLimit a = none := by
    intro anchors leaf hparse a ha
    obtain ⟨pem, hpem, hcert⟩ := (find?_issued hparse).mp ha
    exact hanchors pem (List.mem_of_find?_eq_some hpem) a hcert
  rw [verifyPeerCertChain_eq_true_iff]
  constructor
  · rintro ⟨anchors, leaf, hparse, hcert, hverify, hjudge⟩
    obtain ⟨a, ha, hvalid⟩ := (judgeAnchor_iff (hleaf leaf hcert) (hlimit hparse)).mp hjudge
    obtain ⟨pem, hpem, hanchor⟩ := (find?_issued hparse).mp ha
    have hall := (isSome_mapM_iff forge.certificateFromPem anchorPems).mp (by simp [hparse])
    exact ⟨leaf, hcert, hforge.validAt_leaf hverify, hall, pem, hpem, by simp [ValidText, *]⟩
  · rintro ⟨leaf, hcert, hnow, hall, pem, hpem, hvalid⟩
    obtain ⟨anchors, hparse⟩ := Option.isSome_iff_exists.mp
      ((isSome_mapM_iff forge.certificateFromPem anchorPems).mpr hall)
    obtain ⟨a, hanchor, hverify⟩ := issuedBy_iff.mp (List.find?_some hpem)
    have ha := (find?_issued hparse).mpr ⟨pem, hpem, hanchor⟩
    have hwindow : forge.validAt now a = true := by simpa [ValidText, hanchor] using hvalid
    exact ⟨anchors, leaf, hparse, hcert,
      hforge.accepts hnow (List.mem_of_find?_eq_some ha) hverify,
      (judgeAnchor_iff (hleaf leaf hcert) (hlimit hparse)).mpr ⟨a, ha, hwindow⟩⟩

/-- The two verifications agree exactly where the first issuer serves for all of them. -/
theorem chain_agrees_iff (hforge : forge.ChecksLeaf) :
    (∀ path, enforcePathLenConstraint forge path = true ↔ WithinLimits forge path) ∧
      ∀ now anchorPems leafPem,
        (∀ leaf, forge.certificateFromPem leafPem = some leaf → forge.isCa leaf = false) →
        (∀ pem ∈ anchorPems, ∀ a, forge.certificateFromPem pem = some a →
          forge.pathLenLimit a = none) →
        ((verifyPeerCertChain forge now anchorPems [leafPem] = true ↔
            ∃ pem ∈ anchorPems, verifyPeerCert forge now pem leafPem = true) ↔
          FirstIssuerValid forge now anchorPems leafPem) := by
  refine ⟨enforcePathLenConstraint_iff forge, fun now anchorPems leafPem hleaf hanchors => ?_⟩
  rw [verifyPeerCertChain_iff hforge hleaf hanchors]
  simp only [verifyPeerCert_iff]
  constructor
  · intro hagree leaf hcert hnow ⟨pem, hpem, hissued, hvalid⟩
    obtain ⟨leaf', hcert', -, hall, first, hfirst, hfirstValid⟩ :=
      hagree.mpr ⟨pem, hpem, leaf, hcert, hnow, hissued, hvalid⟩
    obtain rfl := Option.some.inj (hcert.symm.trans hcert')
    refine ⟨hall, fun pem' hpem' => ?_⟩
    obtain rfl := Option.some.inj (hfirst.symm.trans hpem')
    exact hfirstValid
  · intro hcond
    constructor
    · rintro ⟨leaf, hcert, hnow, -, pem, hpem, hvalid⟩
      exact ⟨pem, List.mem_of_find?_eq_some hpem, leaf, hcert, hnow, List.find?_some hpem, hvalid⟩
    · rintro ⟨pem, hpem, leaf, hcert, hnow, hissued, hvalid⟩
      obtain ⟨hall, hfirst⟩ := hcond leaf hcert hnow ⟨pem, hpem, hissued, hvalid⟩
      -- some anchor issued the leaf, so the search finds one
      obtain ⟨first, hfind⟩ := Option.isSome_iff_exists.mp
        (List.find?_isSome.mpr ⟨pem, hpem, hissued⟩)
      exact ⟨leaf, hcert, hnow, hall, first, hfind, hfirst first hfind⟩

/-! ## A renewed authority -/

/-- An authority, its renewal with the same key and subject, and a node that they issued. -/
inductive SampleCert
  | authority | renewed | node
deriving DecidableEq

namespace SampleCert

def notBefore : SampleCert → ℤ
  | authority => 0
  | renewed => 80
  | node => 90

def notAfter : SampleCert → ℤ
  | authority => 100
  | renewed => 300
  | node => 200

def verify : SampleCert → SampleCert → Option Bool
  | node, _ => none
  | authority, _ | renewed, _ => some true

end SampleCert

def sampleForge : Forge where
  Certificate := SampleCert
  certificateFromPem pem :=
    if pem = "authority" then some .authority
    else if pem = "renewed" then some .renewed
    else if pem = "node" then some .node
    else none
  notBefore := SampleCert.notBefore
  notAfter := SampleCert.notAfter
  basicConstraints cert := some { cA := cert ≠ .node, pathLenConstraint := none }
  verify := SampleCert.verify
  verifyCertificateChain now anchors chain :=
    match chain with
    | [leaf] =>
        if leaf.notBefore ≤ now ∧ now ≤ leaf.notAfter ∧
            anchors.any (SampleCert.verify · leaf = some true) then some true
        else none
    | _ => none

theorem sampleForge_checksLeaf : sampleForge.ChecksLeaf where
  validAt_leaf := by
    intro now anchors leaf h
    simp only [sampleForge, Option.ite_none_right_eq_some] at h
    simp [Forge.validAt, sampleForge, h.1.1, h.1.2.1]
  accepts := by
    intro now anchors anchor leaf hnow hanchor hverify
    have hany : anchors.any (SampleCert.verify · leaf = some true) = true :=
      List.any_eq_true.mpr ⟨anchor, hanchor, decide_eq_true hverify⟩
    simp only [Forge.validAt, Bool.and_eq_true, decide_eq_true_eq] at hnow
    exact if_pos ⟨hnow.1, hnow.2, hany⟩

theorem chain_agrees_renewed :
    (verifyPeerCertChain sampleForge 150 ["renewed"] ["node"] = true ↔
        ∃ pem ∈ ["renewed"], verifyPeerCert sampleForge 150 pem "node" = true) ↔
      FirstIssuerValid sampleForge 150 ["renewed"] "node" := by
  apply (chain_agrees_iff sampleForge_checksLeaf).2
  · intro leaf hleaf
    obtain rfl := Option.some.inj hleaf
    rfl
  · intro pem _ a _
    exact ite_self none

/-- An expired anchor in front of its renewal, and an anchor that cannot be parsed. -/
theorem renewed_authority_rejected :
    ¬ (verifyPeerCertChain sampleForge 150 ["authority", "renewed"] ["node"] = true ↔
        ∃ pem ∈ ["authority", "renewed"], verifyPeerCert sampleForge 150 pem "node" = true) ∧
      ¬ (verifyPeerCertChain sampleForge 150 ["no certificate", "renewed"] ["node"] = true ↔
        ∃ pem ∈ ["no certificate", "renewed"],
          verifyPeerCert sampleForge 150 pem "node" = true) := by
  decide

end ThinkLocal.Tls
