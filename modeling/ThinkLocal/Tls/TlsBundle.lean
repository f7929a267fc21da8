import ThinkLocal.Foundation.Machine
import ThinkLocal.Tls.LegacyMigration

/-!
# The bundle of a node

`loadOrCreateTlsBundle` of `tls.ts`.  Which files are there decides what a start does: it loads the
authority or makes a new one, keeps the certificate of the node, migrates it or makes a new one.  The
files are written one after another, and a start can die between two of them or within one.
-/

namespace ThinkLocal.Tls

open Foundation

/-- The files of the directory `tls`. -/
inductive BundleFile
  /-- `ca.crt.pem`. -/
  | caCert
  /-- `ca.key.pem`. -/
  | caKey
  /-- `node.crt.pem`. -/
  | nodeCert
  /-- `node.key.pem`. -/
  | nodeKey
  /-- `ca.crt.legacy.pem`. -/
  | caCertLegacy
  /-- `ca.key.legacy.pem`. -/
  | caKeyLegacy
  /-- `node.crt.legacy.pem`. -/
  | nodeCertLegacy
  /-- `node.key.legacy.pem`. -/
  | nodeKeyLegacy
  /-- `node.crt.legacy-premigrate.pem`. -/
  | nodeCertPremigrate
deriving DecidableEq

abbrev BundleFiles := BundleFile → Option String

structure CanonicalRetentionOpts where
  canonicalSpiffeUri : Option String := none
  trustedAttestingCaPems : List String := []
  migrateLegacyIdentity : Bool := false

structure BundleArgs where
  hostname : String
  spiffeUri : String
  nodeId : Option String
  retention : CanonicalRetentionOpts
  renewBeforeDays : ℤ := 30

/-- The clock of a start, what it draws, and what the system tells it. -/
structure BundleEnv (PrivateKey : Type) where
  now : ℤ
  caDraw : Draw PrivateKey
  /-- The number that the suffix of an authority without `nodeId` is cut from. -/
  caSerial : String
  nodeDraw : Draw PrivateKey
  localIps : List String
  /-- The migration gets its lock. -/
  locks : Bool

/-- What a start writes, in order, and the bundle that it returns unless it throws. -/
structure BundleRun where
  writes : List (BundleFile × String)
  result : Option NodeCertBundle

/-- The files after some writes. -/
def BundleFiles.after (files : BundleFiles) (writes : List (BundleFile × String)) : BundleFiles :=
  writes.foldl (fun files write => Function.update files write.1 (some write.2)) files

section Model

variable (forge : CertForge) (env : BundleEnv forge.PrivateKey) (args : BundleArgs)

/-- What the files say about the authority. -/
inductive CaState
  | loaded (ca : CaBundle)
  | onboarded (caCertPem certPem keyPem : String)
  /-- With what is written before the new authority. -/
  | reissue (backups : List (BundleFile × String))

/-- The authority whose certificate and key are both there. -/
def existingCa (caCertPem caKeyPem : String) : CaState :=
  match forge.certificateFromPem caCertPem with
  | none => .reissue []
  | some cert =>
      if forge.commonName cert = some "thinklocal Mesh CA" then
        .reissue [(.caCertLegacy, caCertPem), (.caKeyLegacy, caKeyPem)]
      else if forge.validAt env.now cert = false then .reissue []
      else if certKeyMatches forge caCertPem caKeyPem then .loaded ⟨caCertPem, caKeyPem⟩
      else .reissue []

def caState (files : BundleFiles) : CaState :=
  match files .caCert, files .caKey with
  | some caCertPem, some caKeyPem => existingCa forge env caCertPem caKeyPem
  | some caCertPem, none =>
      match files .nodeCert, files .nodeKey with
      | some certPem, some keyPem => .onboarded caCertPem certPem keyPem
      | _, _ => .reissue []
  | none, _ => .reissue []

/-- The certificate of the node is new. -/
def freshNode (ca : CaBundle) : BundleRun :=
  match createNodeCert forge env.now env.nodeDraw ca args.hostname args.spiffeUri env.localIps none with
  | none => ⟨[], none⟩
  | some bundle => ⟨[(.nodeCert, bundle.certPem), (.nodeKey, bundle.keyPem)], some bundle⟩

/-- `isRetainableCanonicalCert`. -/
def isRetainableCanonicalCert (now : ℤ) (certPem : String) (canonicalSpiffeUri : Option String)
    (trustedAttestingCaPems : List String) : Bool :=
  match canonicalSpiffeUri with
  | none | some "" => false
  | some uri =>
      if trustedAttestingCaPems.length = 0 then false
      else
        let sans := extractSpiffeUris forge certPem
        if uri ∉ sans then false
        else if sans.any fun u => startsWith u "spiffe://thinklocal/node/" && u ≠ uri then false
        else verifyPeerCertChain forge.toForge now trustedAttestingCaPems [certPem]

/-- `Math.floor` of the days until the certificate ends. -/
def daysLeft (cert : forge.Certificate) : ℤ := (forge.notAfter cert - env.now) / 86400000

/-- A legacy certificate is to be migrated, to this name. -/
def migratesTo (ca : CaBundle) (cert : forge.Certificate) (certPem keyPem : String) :
    Option String :=
  match args.retention.canonicalSpiffeUri with
  | none | some "" => none
  | some uri =>
      if args.retention.migrateLegacyIdentity ∧ forge.validAt env.now cert ∧
          (forge.certificateFromPem ca.caCertPem).any (forge.issued · cert) ∧
          certKeyMatches forge certPem keyPem ∧
          (extractSpiffeUri forge certPem).any (startsWith · "spiffe://thinklocal/host/") ∧
          uri ∉ extractSpiffeUris forge certPem
      then some uri else none

/-- `migrateLegacyCertToCanonical` where nothing else writes the files. -/
def migrateAlone (ca : CaBundle) (uri certPem keyPem : String) : Option BundleRun :=
  if env.locks then
    (createNodeCert forge env.now env.nodeDraw ca args.hostname uri env.localIps (some keyPem)).map
      fun canonical => ⟨[(.nodeCertPremigrate, certPem), (.nodeCert, canonical.certPem)],
        some ⟨canonical.certPem, keyPem, ca.caCertPem⟩⟩
  else none

/-- The two gates behind which a certificate is kept. -/
def isKept (ca : CaBundle) (cert : forge.Certificate) (certPem keyPem : String) : Bool :=
  forge.validAt env.now cert && args.renewBeforeDays < daysLeft forge env cert &&
    certKeyMatches forge certPem keyPem &&
      (extractSpiffeUri forge certPem = some args.spiffeUri &&
          (forge.certificateFromPem ca.caCertPem).any (forge.issued · cert) ||
        isRetainableCanonicalCert forge env.now certPem args.retention.canonicalSpiffeUri
          args.retention.trustedAttestingCaPems)

/-- The certificate of the node under an authority that was loaded. -/
def existingNode (ca : CaBundle) (certPem keyPem : String) : BundleRun :=
  match forge.certificateFromPem certPem with
  | none => freshNode forge env args ca
  | some cert =>
      let migrated := (migratesTo forge env args ca cert certPem keyPem).bind fun uri =>
        migrateAlone forge env args ca uri certPem keyPem
      match migrated with
      | some run => run
      | none =>
          if isKept forge env args ca cert certPem keyPem then ⟨[], some ⟨certPem, keyPem, ca.caCertPem⟩⟩
          else freshNode forge env args ca

/-- The copies of the old certificate and key that are kept when the authority changes. -/
def legacyNode (files : BundleFiles) : List (BundleFile × String) :=
  match files .nodeCert with
  | none => []
  | some certPem =>
      (.nodeCertLegacy, certPem) :: ((files .nodeKey).map fun key => (.nodeKeyLegacy, key)).toList

def loadOrCreateTlsBundle (files : BundleFiles) : BundleRun :=
  match caState forge env files with
  | .onboarded caCertPem certPem keyPem =>
      if certKeyMatches forge certPem keyPem && verifyPeerCert forge.toForge env.now caCertPem certPem
      then ⟨[], some ⟨certPem, keyPem, caCertPem⟩⟩ else ⟨[], none⟩
  | .loaded ca =>
      match files .nodeCert, files .nodeKey with
      | some certPem, some keyPem => existingNode forge env args ca certPem keyPem
      | _, _ => freshNode forge env args ca
  | .reissue backups =>
      match createMeshCA forge env.now env.caDraw "thinklocal" args.nodeId env.caSerial with
      | none => ⟨backups, none⟩
      | some ca =>
          let node := freshNode forge env args ca
          ⟨backups ++ [(.caCert, ca.caCertPem), (.caKey, ca.caKeyPem)] ++ legacyNode files ++ node.writes,
            node.result⟩

end Model

/-! ## The migration of one process -/

section Alone

variable {forge : CertForge} {P : Type} [DecidableEq P] {margs : P → MigrateArgs} {start : TlsDir}
  {s : Migration P} {p : P}

/-- The calls of a migration with nothing in its way. -/
def undisturbed {PrivateKey : Type} (now : ℤ) (draw : Draw PrivateKey) (certPem newPem : String) :
    List (CallEvent PrivateKey) :=
  [.proceeds, .proceeds, .signs now draw, .proceeds, .writes certPem.toList.length, .proceeds,
    .proceeds, .writes newPem.length, .proceeds, .proceeds, .proceeds]

theorem runFrom_cons {event : CallEvent forge.PrivateKey} {dir dir' : TlsDir}
    {phase phase' : Phase} {rest : List (CallEvent forge.PrivateKey)}
    (h : phase.advance forge (margs p) dir event = some (dir', phase')) :
    (migration forge margs start).runFrom ⟨dir, Function.update s.phase p phase⟩
        ((event :: rest).map (p, ·)) =
      (migration forge margs start).runFrom ⟨dir', Function.update s.phase p phase'⟩
        (rest.map (p, ·)) := by
  simp [Machine.runFrom, migration, h]

/-- The directory with a file that was emptied, or made, and written. -/
def overwritten (dir : TlsDir) (name : TlsFile) (text : List Char) : TlsDir :=
  (dir.openTruncated name).2.write '\x00' (dir.openTruncated name).1 ([] : List Char).length text

/-- The directory with the lock, the archive and the temporary file. -/
def preparedDir (dir : TlsDir) (certPem newPem : String) : TlsDir :=
  overwritten (overwritten (dir.create .lock) .premigrate certPem.toList) .tmp newPem.toList

def installedDir (dir : TlsDir) (certPem newPem : String) : TlsDir :=
  (preparedDir dir certPem newPem).move .tmp .nodeCert

section Directories

variable {dir : TlsDir} {certPem newPem : String}

theorem content_overwritten {name other : TlsFile} {text : List Char} :
    (overwritten dir name text).content other =
      if other = name then some text else dir.content other :=
  Directory.content_write_openTruncated ..

theorem rename_preparedDir : (preparedDir dir certPem newPem).rename .tmp .nodeCert =
    some (installedDir dir certPem newPem) := by
  have htmp (dir : TlsDir) (text : List Char) :
      (overwritten dir .tmp text).entry .tmp = some (dir.openTruncated .tmp).1 :=
    Directory.entry_openTruncated.trans (if_pos rfl)
  rw [Directory.rename, preparedDir, htmp]
  rfl

theorem content_installedDir (name : TlsFile) : (installedDir dir certPem newPem).content name =
    if name = .nodeCert then some newPem.toList
    else if name = .tmp then none
    else if name = .premigrate then some certPem.toList else (dir.create .lock).content name := by
  rw [installedDir, preparedDir, Directory.content_move, content_overwritten, if_pos rfl]
  by_cases hname : name = .tmp
  · simp [hname]
  · rw [if_neg hname, if_neg hname, content_overwritten, if_neg hname, content_overwritten]

theorem entry_installedDir_lock :
    (installedDir dir certPem newPem).entry .lock = some dir.files.next := by
  simp [installedDir, preparedDir, overwritten, Directory.entry_openTruncated]

end Directories

/-- Where nothing is in its way, a process runs through the calls of a migration. -/
theorem runFrom_undisturbed {now : ℤ} {draw : Draw forge.PrivateKey} {ca : CaBundle}
    {hostname uri certPem keyPem : String} {localIps : List String} {canonical : NodeCertBundle}
    (hargs : margs p = ⟨ca, hostname, uri, localIps, keyPem⟩)
    (hphase : s.phase p = .creating) (hlock : s.dir.entry .lock = none)
    (hcert : s.dir.content .nodeCert = some certPem.toList)
    (hlegacy : uri ∉ extractSpiffeUris forge certPem)
    (hcreate : createNodeCert forge now draw ca hostname uri localIps (some keyPem) =
      some canonical) :
    (migration forge margs start).runFrom s
        ((undisturbed now draw certPem canonical.certPem).map (p, ·)) =
      some ⟨(installedDir s.dir certPem canonical.certPem).remove .lock,
        Function.update s.phase p (.returned (some ⟨canonical.certPem, keyPem, ca.caCertPem⟩))⟩ := by
  let locked := s.dir.create .lock
  let archive := locked.openTruncated .premigrate
  let archived := overwritten locked .premigrate certPem.toList
  let opened := archived.openTruncated .tmp
  have hlocked : locked.content .nodeCert = some certPem.toList :=
    (Directory.content_create.trans (if_neg (by decide))).trans hcert
  have hstart : (⟨s.dir, Function.update s.phase p .creating⟩ : Migration P) = s := by
    rw [← hphase, Function.update_eq_self]
  -- the steps that depend on the directory or on what was drawn
  have hcreating : Phase.creating.advance forge (margs p) s.dir .proceeds =
      some (locked, .holding s.dir.files.next .rereading) := by
    simp [Phase.advance, Directory.openExclusive, hlock, locked]
  have hrereading : (Phase.holding s.dir.files.next .rereading).advance forge (margs p) locked
      .proceeds = some (locked, .holding s.dir.files.next (.signing certPem)) := by
    simp [Phase.advance, Work.advance, hlocked, hargs, hlegacy]
  have hsigning : (Phase.holding s.dir.files.next (.signing certPem)).advance forge (margs p)
      locked (.signs now draw) =
        some (locked, .holding s.dir.files.next (.archiving certPem canonical)) := by
    simp [Phase.advance, Work.advance, hargs, hcreate]
  have hcopying : (Phase.holding s.dir.files.next (.copying archive.1 0 certPem.toList
      canonical)).advance forge (margs p) archive.2 (.writes certPem.toList.length) =
        some (archived, .holding s.dir.files.next
          (.copying archive.1 (0 + certPem.toList.length) [] canonical)) := by
    simp [Phase.advance, Work.advance, archived, overwritten, archive]
  have hwriting : (Phase.holding s.dir.files.next (.writing opened.1 canonical)).advance forge
      (margs p) opened.2 (.writes canonical.certPem.length) =
        some (preparedDir s.dir certPem canonical.certPem,
          .holding s.dir.files.next (.syncing canonical)) := by
    simp [Phase.advance, Work.advance, preparedDir, overwritten, opened, archived, locked,
      ← String.length_toList]
  have hinstalling : (Phase.holding s.dir.files.next (.installing canonical)).advance forge
      (margs p) (preparedDir s.dir certPem canonical.certPem) .proceeds =
        some (installedDir s.dir certPem canonical.certPem, .holding s.dir.files.next
          (.releasing (some ⟨canonical.certPem, keyPem, ca.caCertPem⟩))) := by
    simp [Phase.advance, Work.advance, rename_preparedDir, hargs]
  have hreleasing : (Phase.holding s.dir.files.next (.releasing
      (some ⟨canonical.certPem, keyPem, ca.caCertPem⟩))).advance forge (margs p)
        (installedDir s.dir certPem canonical.certPem) .proceeds =
          some ((installedDir s.dir certPem canonical.certPem).remove .lock,
            .returned (some ⟨canonical.certPem, keyPem, ca.caCertPem⟩)) := by
    simp [Phase.advance, Directory.unlink, entry_installedDir_lock]
  refine (congrArg (fun s => (migration forge margs start).runFrom s _) hstart.symm).trans ?_
  refine (runFrom_cons hcreating).trans ?_
  refine (runFrom_cons hrereading).trans ?_
  refine (runFrom_cons hsigning).trans ?_
  refine (runFrom_cons rfl).trans ?_
  refine (runFrom_cons hcopying).trans ?_
  refine (runFrom_cons rfl).trans ?_
  refine (runFrom_cons rfl).trans ?_
  refine (runFrom_cons hwriting).trans ?_
  refine (runFrom_cons rfl).trans ?_
  refine (runFrom_cons hinstalling).trans ?_
  exact runFrom_cons hreleasing

/-- Where nothing is in its way, a process does what `migrateAlone` says. -/
theorem migrateAlone_runs {env : BundleEnv forge.PrivateKey} {args : BundleArgs} {ca : CaBundle}
    {uri certPem keyPem : String} {canonical : NodeCertBundle}
    (hargs : margs p = ⟨ca, args.hostname, uri, env.localIps, keyPem⟩)
    (hphase : s.phase p = .creating) (hlock : s.dir.entry .lock = none)
    (hcert : s.dir.content .nodeCert = some certPem.toList)
    (hlegacy : uri ∉ extractSpiffeUris forge certPem) {run : BundleRun}
    (hrun : migrateAlone forge env args ca uri certPem keyPem = some run)
    (hcreate : createNodeCert forge env.now env.nodeDraw ca args.hostname uri env.localIps
      (some keyPem) = some canonical) :
    run.writes = [(.nodeCertPremigrate, certPem), (.nodeCert, canonical.certPem)] ∧
      ∃ dir, (migration forge margs start).runFrom s
          ((undisturbed env.now env.nodeDraw certPem canonical.certPem).map (p, ·)) =
            some ⟨dir, Function.update s.phase p (.returned run.result)⟩ ∧
        dir.content .premigrate = some certPem.toList ∧
        dir.content .nodeCert = some canonical.certPem.toList ∧
        dir.content .nodeKey = s.dir.content .nodeKey := by
  unfold migrateAlone at hrun
  split at hrun
  · obtain ⟨canonical', hcreate', rfl⟩ := Option.map_eq_some_iff.mp hrun
    obtain rfl := Option.some.inj (hcreate.symm.trans hcreate')
    -- the release of the lock leaves all other files
    have hcontent (name : TlsFile) (hname : name ≠ .lock) :
        ((installedDir s.dir certPem canonical.certPem).remove .lock).content name =
          (installedDir s.dir certPem canonical.certPem).content name :=
      Directory.content_remove.trans (if_neg hname)
    refine ⟨rfl, _, runFrom_undisturbed hargs hphase hlock hcert hlegacy hcreate, ?_, ?_, ?_⟩
    · exact (hcontent _ (by decide)).trans (content_installedDir .premigrate)
    · exact (hcontent _ (by decide)).trans (content_installedDir .nodeCert)
    · refine (hcontent _ (by decide)).trans ((content_installedDir .nodeKey).trans ?_)
      exact Directory.content_create
  · cases hrun

end Alone

/-! ## Authorities that can sign -/

section Authority

variable {forge : CertForge} {now : ℤ} {ca : CaBundle}

/-- An authority in its window with its own key, under a name of its own. -/
def GoodCa (forge : CertForge) (now : ℤ) (ca : CaBundle) : Prop :=
  ∃ cert key, forge.certificateFromPem ca.caCertPem = some cert ∧
    forge.privateKeyFromPem ca.caKeyPem = some key ∧ forge.publicOf key = forge.publicKey cert ∧
      forge.validAt now cert = true ∧ forge.commonName cert ≠ some "thinklocal Mesh CA"

/-- What is signed for some days is valid when it is signed. -/
theorem Carries.validAt (hforge : forge.Lawful) {cert : forge.Certificate}
    {t : CertTemplate forge.PublicKey} (h : Carries forge cert t) {days : ℕ} (hdays : 2 ≤ days)
    (hnotBefore : t.notBefore = now) (hnotAfter : t.notAfter = forge.addDays now days) :
    forge.validAt now cert = true := by
  have hadd := hforge.addDays now days
  have hbefore := h.notBefore
  have hafter := h.notAfter
  rw [hnotBefore] at hbefore
  rw [hnotAfter] at hafter
  have hwindow : forge.notBefore cert ≤ now ∧ now ≤ forge.notAfter cert := by
    constructor
    · omega
    · have hlong : (1 : ℤ) ≤ days - 1 := by omega
      have hmul : (1 : ℤ) * 86400000 ≤ (days - 1) * 86400000 := by omega
      omega
  simp [Forge.validAt, hwindow.1, hwindow.2]

theorem goodCa_createMeshCA (hforge : forge.Lawful) {draw : Draw forge.PrivateKey}
    {nodeId : Option String} {serial : String}
    (h : createMeshCA forge now draw "thinklocal" nodeId serial = some ca) : GoodCa forge now ca := by
  obtain ⟨pem, hsigned, rfl⟩ := Option.map_eq_some_iff.mp h
  obtain ⟨cert, hcert, hcarries⟩ := hforge.reads hsigned
  refine ⟨cert, draw.keys, hcert, hforge.readsKey _, hcarries.publicKey.symm,
    hcarries.validAt hforge (by decide) rfl rfl, ?_⟩
  rw [hcarries.commonName]
  intro hname
  have hlength := congrArg String.length (Option.some.inj hname)
  simp only [String.length_append] at hlength
  have hsuffix : "thinklocal".length + " Mesh CA ".length = 19 := by decide
  have hlegacy : "thinklocal Mesh CA".length = 18 := by decide
  omega

theorem goodCa_of_loaded {env : BundleEnv forge.PrivateKey} {caCertPem caKeyPem : String}
    (h : existingCa forge env caCertPem caKeyPem = .loaded ca) :
    ca = ⟨caCertPem, caKeyPem⟩ ∧ GoodCa forge env.now ca := by
  unfold existingCa at h
  split at h
  · cases h
  · next cert hcert =>
      split_ifs at h with hname hvalid hmatches
      obtain rfl := (CaState.loaded.inj h).symm
      obtain ⟨key, cert', hkey, hcert', hpair⟩ := certKeyMatches_iff.mp hmatches
      obtain rfl := Option.some.inj (hcert.symm.trans hcert')
      exact ⟨rfl, cert, key, hcert, hkey, hpair, by simpa using hvalid, hname⟩

/-- A good authority is loaded. -/
theorem existingCa_of_good {env : BundleEnv forge.PrivateKey} (h : GoodCa forge env.now ca) :
    existingCa forge env ca.caCertPem ca.caKeyPem = .loaded ca := by
  obtain ⟨cert, key, hcert, hkey, hpair, hvalid, hname⟩ := h
  have hmatches := certKeyMatches_iff.mpr ⟨key, cert, hkey, hcert, hpair⟩
  unfold existingCa
  rw [hcert]
  simp [hname, hvalid, hmatches]

/-- A certificate that a good authority has just signed. -/
structure Issued (forge : CertForge) (now : ℤ) (ca : CaBundle) (hostname spiffeUri : String)
    (bundle : NodeCertBundle) : Prop where
  caCertPem : bundle.caCertPem = ca.caCertPem
  pair : certKeyMatches forge bundle.certPem bundle.keyPem = true
  read : ∃ cert, forge.certificateFromPem bundle.certPem = some cert ∧
    forge.validAt now cert = true ∧ forge.notAfter cert =
      forge.addDays now NODE_CERT_VALIDITY_DAYS / 1000 * 1000 ∧
      (forge.certificateFromPem ca.caCertPem).any (forge.issued · cert) = true
  uris : extractSpiffeUris forge bundle.certPem =
    if startsWith spiffeUri "spiffe://thinklocal/" then [spiffeUri] else []
  verifies : verifyPeerCert forge.toForge now ca.caCertPem bundle.certPem = true

theorem keyOrDrawn_matches (hforge : forge.Lawful) {existingKeyPem : Option String}
    {draw : Draw forge.PrivateKey} {publicKey : forge.PublicKey} {keyPemOut : String}
    (h : keyOrDrawn forge existingKeyPem draw = some (publicKey, keyPemOut)) :
    ∃ privKey, forge.privateKeyFromPem keyPemOut = some privKey ∧
      forge.publicOf privKey = publicKey := by
  unfold keyOrDrawn at h
  split at h
  · obtain ⟨rfl, rfl⟩ := Prod.mk.inj (Option.some.inj h)
    exact ⟨draw.keys, hforge.readsKey _, rfl⟩
  · obtain ⟨rfl, rfl⟩ := Prod.mk.inj (Option.some.inj h)
    exact ⟨draw.keys, hforge.readsKey _, rfl⟩
  · obtain ⟨privKey, hread, hpair⟩ := Option.map_eq_some_iff.mp h
    obtain ⟨rfl, rfl⟩ := Prod.mk.inj hpair
    exact ⟨privKey, hread, rfl⟩

theorem issued_of_createNodeCert (hforge : forge.Lawful) (hca : GoodCa forge now ca)
    {draw : Draw forge.PrivateKey} {hostname spiffeUri : String} {ips : List String}
    {existingKeyPem : Option String} {bundle : NodeCertBundle}
    (h : createNodeCert forge now draw ca hostname spiffeUri ips existingKeyPem = some bundle) :
    Issued forge now ca hostname spiffeUri bundle := by
  -- the same authority is read from its file and was checked
  obtain ⟨caCert, caKey, publicKey, hcaCert, hcaKey, hkey, hsigned, hcaPem⟩ :=
    createNodeCert_eq_some h
  obtain ⟨cert, hcert, hcarries⟩ := hforge.reads hsigned
  obtain ⟨privKey, hread, hpublic⟩ := keyOrDrawn_matches hforge hkey
  obtain ⟨caCert', caKey', hcaCert', hcaKey', hcaPair, hcaValid, -⟩ := hca
  obtain rfl := Option.some.inj (hcaCert.symm.trans hcaCert')
  obtain rfl := Option.some.inj (hcaKey.symm.trans hcaKey')
  have hverify := hforge.verifies hsigned hcaPair hcert
  have hvalid : forge.validAt now cert = true := hcarries.validAt hforge (by decide) rfl rfl
  have hissued : (forge.certificateFromPem ca.caCertPem).any (forge.issued · cert) = true := by
    simp [hcaCert, Forge.issued, hverify]
  exact {
    caCertPem := hcaPem
    pair := certKeyMatches_iff.mpr ⟨privKey, cert, hread, hcert, hpublic.trans hcarries.publicKey.symm⟩
    read := ⟨cert, hcert, hvalid, hcarries.notAfter, hissued⟩
    uris := by
      -- addresses are no identities
      have hips : (ips.map fun ip => (⟨7, ip⟩ : AltName)).filter isSpiffe = [] := by
        simp [List.filter_eq_nil_iff, isSpiffe]
      unfold extractSpiffeUris
      rw [hcert]
      dsimp only
      rw [hcarries.altNames]
      by_cases hstart : startsWith spiffeUri "spiffe://thinklocal/" = true
      · simp [nodeTemplate, isSpiffe, hstart] at hips ⊢
      · simp [nodeTemplate, isSpiffe, hstart] at hips ⊢
    verifies := verifyPeerCert_iff.mpr ⟨cert, hcert, hvalid,
      issuedBy_iff.mpr ⟨caCert, hcaCert, hverify⟩, by simp [ValidText, hcaCert, hcaValid]⟩ }

end Authority

/-! ## What a start that succeeds has done -/

section Outcome

variable {forge : CertForge} {env : BundleEnv forge.PrivateKey} {args : BundleArgs}
  {files : BundleFiles} {ca : CaBundle} {bundle : NodeCertBundle}

/-- The ways to a bundle. -/
inductive Outcome (forge : CertForge) (env : BundleEnv forge.PrivateKey) (args : BundleArgs)
    (files : BundleFiles) : NodeCertBundle → List (BundleFile × String) → Prop
  | onboarded {caCertPem certPem keyPem : String}
      (hstate : caState forge env files = .onboarded caCertPem certPem keyPem)
      (hpair : certKeyMatches forge certPem keyPem = true)
      (hverify : verifyPeerCert forge.toForge env.now caCertPem certPem = true) :
      Outcome forge env args files ⟨certPem, keyPem, caCertPem⟩ []
  | kept {ca : CaBundle} {cert : forge.Certificate} {certPem keyPem : String}
      (hstate : caState forge env files = .loaded ca) (hnodeCert : files .nodeCert = some certPem)
      (hnodeKey : files .nodeKey = some keyPem)
      (hcert : forge.certificateFromPem certPem = some cert)
      (hkept : isKept forge env args ca cert certPem keyPem = true)
      (hstays : env.locks = true → ∀ uri,
        migratesTo forge env args ca cert certPem keyPem = some uri →
          migrateAlone forge env args ca uri certPem keyPem = none) :
      Outcome forge env args files ⟨certPem, keyPem, ca.caCertPem⟩ []
  | migrated {ca : CaBundle} {cert : forge.Certificate} {certPem keyPem uri : String}
      {canonical : NodeCertBundle}
      (hstate : caState forge env files = .loaded ca) (hnodeCert : files .nodeCert = some certPem)
      (hnodeKey : files .nodeKey = some keyPem)
      (hcert : forge.certificateFromPem certPem = some cert)
      (huri : migratesTo forge env args ca cert certPem keyPem = some uri)
      (hcreate : createNodeCert forge env.now env.nodeDraw ca args.hostname uri env.localIps
        (some keyPem) = some canonical) :
      Outcome forge env args files ⟨canonical.certPem, keyPem, ca.caCertPem⟩
        [(.nodeCertPremigrate, certPem), (.nodeCert, canonical.certPem)]
  | fresh {ca : CaBundle} {bundle : NodeCertBundle} {before : List (BundleFile × String)}
      (hca : caState forge env files = .loaded ca ∧ before = [] ∨
        ∃ backups, caState forge env files = .reissue backups ∧
          createMeshCA forge env.now env.caDraw "thinklocal" args.nodeId env.caSerial = some ca ∧
            before = backups ++ [(.caCert, ca.caCertPem), (.caKey, ca.caKeyPem)] ++ legacyNode files)
      (hcreate : createNodeCert forge env.now env.nodeDraw ca args.hostname args.spiffeUri
        env.localIps none = some bundle) :
      Outcome forge env args files bundle
        (before ++ [(.nodeCert, bundle.certPem), (.nodeKey, bundle.keyPem)])

theorem freshNode_result (h : (freshNode forge env args ca).result = some bundle) :
    createNodeCert forge env.now env.nodeDraw ca args.hostname args.spiffeUri env.localIps none =
        some bundle ∧
      (freshNode forge env args ca).writes =
        [(.nodeCert, bundle.certPem), (.nodeKey, bundle.keyPem)] := by
  unfold freshNode at h ⊢
  split at h
  · cases h
  · next created hcreate =>
      obtain rfl := Option.some.inj h
      exact ⟨hcreate, rfl⟩

theorem outcome_of_loaded (hstate : caState forge env files = .loaded ca)
    (h : (freshNode forge env args ca).result = some bundle) :
    Outcome forge env args files bundle (freshNode forge env args ca).writes := by
  obtain ⟨hcreate, hwrites⟩ := freshNode_result h
  rw [hwrites]
  exact .fresh (.inl ⟨hstate, rfl⟩) hcreate

theorem outcome_of_existing {certPem keyPem : String} (hstate : caState forge env files = .loaded ca)
    (hnodeCert : files .nodeCert = some certPem) (hnodeKey : files .nodeKey = some keyPem)
    (h : (existingNode forge env args ca certPem keyPem).result = some bundle) :
    Outcome forge env args files bundle (existingNode forge env args ca certPem keyPem).writes := by
  unfold existingNode at h ⊢
  cases hcert : forge.certificateFromPem certPem with
  | none =>
      rw [hcert] at h
      exact outcome_of_loaded hstate h
  | some cert =>
      rw [hcert] at h
      dsimp only at h ⊢
      -- without a migration the certificate is judged as it is
      cases hmigrated : (migratesTo forge env args ca cert certPem keyPem).bind fun uri =>
          migrateAlone forge env args ca uri certPem keyPem with
      | some run =>
          rw [hmigrated] at h
          obtain ⟨uri, huri, hrun⟩ := Option.bind_eq_some_iff.mp hmigrated
          unfold migrateAlone at hrun
          split at hrun
          · obtain ⟨canonical, hcreate, rfl⟩ := Option.map_eq_some_iff.mp hrun
            obtain rfl := Option.some.inj h
            exact .migrated hstate hnodeCert hnodeKey hcert huri hcreate
          · cases hrun
      | none =>
          rw [hmigrated] at h
          dsimp only at h ⊢
          by_cases hkept : isKept forge env args ca cert certPem keyPem = true
          · rw [if_pos hkept] at h ⊢
            obtain rfl := Option.some.inj h
            exact .kept hstate hnodeCert hnodeKey hcert hkept fun _ uri huri =>
              Option.bind_eq_none_iff.mp hmigrated uri huri
          · rw [if_neg hkept] at h ⊢
            exact outcome_of_loaded hstate h

theorem outcome_of_result (h : (loadOrCreateTlsBundle forge env args files).result = some bundle) :
    Outcome forge env args files bundle (loadOrCreateTlsBundle forge env args files).writes := by
  unfold loadOrCreateTlsBundle at h ⊢
  cases hstate : caState forge env files with
  | onboarded caCertPem certPem keyPem =>
      rw [hstate] at h
      dsimp only at h ⊢
      -- onboarded files are used as they are or not at all
      split at h
      · next hvalid =>
          rw [if_pos hvalid]
          obtain rfl := Option.some.inj h
          obtain ⟨hpair, hverify⟩ := Bool.and_eq_true_iff.mp hvalid
          exact .onboarded hstate hpair hverify
      · cases h
  | loaded ca =>
      rw [hstate] at h
      dsimp only at h ⊢
      split at h
      · next certPem keyPem hnodeCert hnodeKey => exact outcome_of_existing hstate hnodeCert hnodeKey h
      · exact outcome_of_loaded hstate h
  | reissue backups =>
      rw [hstate] at h
      dsimp only at h ⊢
      split at h
      · cases h
      · next ca hca =>
          obtain ⟨hcreate, hwrites⟩ := freshNode_result h
          rw [hwrites]
          exact .fresh (.inr ⟨backups, hstate, hca, rfl⟩) hcreate

theorem goodCa_of_caState (hstate : caState forge env files = .loaded ca) :
    files .caCert = some ca.caCertPem ∧ files .caKey = some ca.caKeyPem ∧ GoodCa forge env.now ca := by
  unfold caState at hstate
  split at hstate
  · next caCertPem caKeyPem hcert hkey =>
      obtain ⟨rfl, hgood⟩ := goodCa_of_loaded hstate
      exact ⟨hcert, hkey, hgood⟩
  · split at hstate <;> cases hstate
  · cases hstate

/-- The certificate of a bundle fits its key, and the authority of the bundle or one that attests
has signed it. -/
structure Sound (forge : CertForge) (now : ℤ) (trusted : List String) (bundle : NodeCertBundle) :
    Prop where
  pair : certKeyMatches forge bundle.certPem bundle.keyPem = true
  verifies : verifyPeerCert forge.toForge now bundle.caCertPem bundle.certPem = true ∨
    verifyPeerCertChain forge.toForge now trusted [bundle.certPem] = true

end Outcome

/-! ## Sound bundles -/

section Soundness

variable {forge : CertForge} {env : BundleEnv forge.PrivateKey} {args : BundleArgs}
  {files : BundleFiles} {bundle : NodeCertBundle} {writes : List (BundleFile × String)}

theorem verifyPeerCertChain_of_retainable {now : ℤ} {certPem : String} {uri : Option String}
    {trusted : List String} (h : isRetainableCanonicalCert forge now certPem uri trusted = true) :
    verifyPeerCertChain forge.toForge now trusted [certPem] = true := by
  unfold isRetainableCanonicalCert at h
  split at h
  · cases h
  · cases h
  · dsimp only at h
    split_ifs at h
    exact h

theorem matches_of_isKept {ca : CaBundle} {cert : forge.Certificate} {certPem keyPem : String}
    (h : isKept forge env args ca cert certPem keyPem = true) :
    certKeyMatches forge certPem keyPem = true ∧ forge.validAt env.now cert = true := by
  unfold isKept at h
  simp only [Bool.and_eq_true] at h
  exact ⟨h.1.2, h.1.1.1⟩

theorem matches_of_migratesTo {ca : CaBundle} {cert : forge.Certificate}
    {certPem keyPem uri : String} (h : migratesTo forge env args ca cert certPem keyPem = some uri) :
    certKeyMatches forge certPem keyPem = true ∧ uri ∉ extractSpiffeUris forge certPem ∧
      args.retention.canonicalSpiffeUri = some uri ∧ uri ≠ "" ∧
        args.retention.migrateLegacyIdentity = true := by
  unfold migratesTo at h
  split at h
  · cases h
  · cases h
  · next found hne hfound =>
      split_ifs at h with hgate
      obtain rfl := Option.some.inj h
      exact ⟨hgate.2.2.2.1, hgate.2.2.2.2.2, hfound, hne, hgate.1⟩

theorem sound_of_outcome (hforge : forge.Lawful) (h : Outcome forge env args files bundle writes) :
    Sound forge env.now args.retention.trustedAttestingCaPems bundle := by
  cases h with
  | onboarded hstate hpair hverify => exact ⟨hpair, .inl hverify⟩
  | @kept ca cert certPem keyPem hstate hnodeCert hnodeKey hcert hkept hstays =>
      refine ⟨(matches_of_isKept hkept).1, ?_⟩
      obtain ⟨-, -, caCert, -, hcaCert, -, -, hcaValid, -⟩ := goodCa_of_caState hstate
      have hvalid := (matches_of_isKept hkept).2
      unfold isKept at hkept
      simp only [Bool.and_eq_true, Bool.or_eq_true] at hkept
      -- the certificate was kept as issued by the own authority or as a canonical one
      rcases hkept.2 with ⟨-, hissued⟩ | hretain
      · refine .inl (verifyPeerCert_iff.mpr ⟨cert, hcert, hvalid, ?_, ?_⟩)
        · exact hissued
        · simp [ValidText, hcaCert, hcaValid]
      · exact .inr (verifyPeerCertChain_of_retainable hretain)
  | @migrated ca cert certPem keyPem uri canonical hstate hnodeCert hnodeKey hcert huri hcreate =>
      have hissued := issued_of_createNodeCert hforge (goodCa_of_caState hstate).2.2 hcreate
      have hne := keyPem_ne_of_matches hforge (matches_of_migratesTo huri).1
      exact ⟨(certKeyMatches_createNodeCert hforge hne hcreate).2, .inl hissued.verifies⟩
  | @fresh ca bundle before hca hcreate =>
      have hgood : GoodCa forge env.now ca := by
        rcases hca with ⟨hstate, -⟩ | ⟨backups, -, hmesh, -⟩
        · exact (goodCa_of_caState hstate).2.2
        · exact goodCa_createMeshCA hforge hmesh
      have hissued := issued_of_createNodeCert hforge hgood hcreate
      exact ⟨hissued.pair, .inl (hissued.caCertPem ▸ hissued.verifies)⟩

/-! ## What is written -/

/-- The files of a bundle. -/
structure Saved (files : BundleFiles) (bundle : NodeCertBundle) : Prop where
  caCert : files .caCert = some bundle.caCertPem
  nodeCert : files .nodeCert = some bundle.certPem
  nodeKey : files .nodeKey = some bundle.keyPem

theorem BundleFiles.after_append (ws ws' : List (BundleFile × String)) :
    files.after (ws ++ ws') = (files.after ws).after ws' := List.foldl_append

theorem BundleFiles.after_cons (w : BundleFile × String) (ws : List (BundleFile × String)) :
    files.after (w :: ws) = BundleFiles.after (Function.update files w.1 (some w.2)) ws := rfl

@[simp] theorem BundleFiles.after_nil : files.after [] = files := rfl

theorem BundleFiles.after_of_notMem {f : BundleFile} {ws : List (BundleFile × String)}
    (h : f ∉ ws.map Prod.fst) : files.after ws f = files f := by
  induction ws generalizing files with
  | nil => rfl
  | cons w ws ih =>
      rw [List.map_cons, List.mem_cons, not_or] at h
      rw [after_cons, ih h.2, Function.update_of_ne h.1]

theorem BundleFiles.isSome_after {f : BundleFile} (ws : List (BundleFile × String))
    (h : (files f).isSome) : (files.after ws f).isSome := by
  induction ws generalizing files with
  | nil => exact h
  | cons w ws ih =>
      refine ih ?_
      dsimp only
      by_cases hf : f = w.1
      · rw [hf, Function.update_self]
        rfl
      · rwa [Function.update_of_ne hf]

theorem notMem_legacyNode {f : BundleFile} (hcert : f ≠ .nodeCertLegacy) (hkey : f ≠ .nodeKeyLegacy) :
    f ∉ (legacyNode files).map Prod.fst := by
  unfold legacyNode
  cases files .nodeCert with
  | none => simp
  | some certPem => cases files .nodeKey <;> simp [hcert, hkey]

theorem caState_onboarded_iff {caCertPem certPem keyPem : String} :
    caState forge env files = .onboarded caCertPem certPem keyPem ↔
      files .caCert = some caCertPem ∧ files .caKey = none ∧ files .nodeCert = some certPem ∧
        files .nodeKey = some keyPem := by
  unfold caState
  cases hcaCert : files .caCert with
  | none => simp
  | some ca =>
      cases hcaKey : files .caKey with
      | some key =>
          simp only [reduceCtorEq, false_and, and_false, iff_false]
          unfold existingCa
          split
          · simp
          · split_ifs <;> simp
      | none => cases files .nodeCert <;> cases files .nodeKey <;> simp

theorem saved_of_outcome (h : Outcome forge env args files bundle writes) :
    Saved (files.after writes) bundle := by
  cases h with
  | onboarded hstate hpair hverify =>
      obtain ⟨hcaCert, -, hnodeCert, hnodeKey⟩ := caState_onboarded_iff.mp hstate
      exact ⟨hcaCert, hnodeCert, hnodeKey⟩
  | kept hstate hnodeCert hnodeKey hcert hkept hstays =>
      exact ⟨(goodCa_of_caState hstate).1, hnodeCert, hnodeKey⟩
  | migrated hstate hnodeCert hnodeKey hcert huri hcreate =>
      have hcaCert := (goodCa_of_caState hstate).1
      exact ⟨by simpa [BundleFiles.after] using hcaCert, by simp [BundleFiles.after],
        by simpa [BundleFiles.after] using hnodeKey⟩
  | @fresh ca bundle before hca hcreate =>
      have hpem : bundle.caCertPem = ca.caCertPem := by
        obtain ⟨-, -, -, -, -, -, -, hpem⟩ := createNodeCert_eq_some hcreate
        exact hpem
      -- the backups are of other files
      have hcaCert : files.after before .caCert = some ca.caCertPem := by
        rcases hca with ⟨hstate, rfl⟩ | ⟨backups, -, -, rfl⟩
        · exact (goodCa_of_caState hstate).1
        · rw [BundleFiles.after_append,
            BundleFiles.after_of_notMem (notMem_legacyNode (by decide) (by decide)),
            BundleFiles.after_append]
          simp [BundleFiles.after]
      rw [BundleFiles.after_append]
      exact ⟨by simpa [BundleFiles.after, hpem] using hcaCert, by simp [BundleFiles.after],
        by simp [BundleFiles.after]⟩

end Soundness

/-! ## Starts that die -/

section Recovery

variable {forge : CertForge} {env : BundleEnv forge.PrivateKey} {args : BundleArgs}
  {files start s : BundleFiles}

/-- A node with its authority's certificate and without its key. -/
structure IsOnboarded (files : BundleFiles) : Prop where
  caCert : (files .caCert).isSome
  caKey : files .caKey = none
  nodeCert : (files .nodeCert).isSome
  nodeKey : (files .nodeKey).isSome

/-- A node that has lost its authority altogether. -/
structure IsOrphaned (files : BundleFiles) : Prop where
  caCert : files .caCert = none
  caKey : files .caKey = none
  nodeCert : (files .nodeCert).isSome
  nodeKey : (files .nodeKey).isSome

/-- An authority without its key does not look like another node's. -/
def CanReissue (files : BundleFiles) : Prop :=
  (files .caKey).isSome ∨ files .nodeCert = none ∨ files .nodeKey = none

theorem canReissue_iff : CanReissue files ↔ ¬ IsOrphaned files ∧ ¬ IsOnboarded files := by
  constructor
  · rintro (hkey | hcert | hkey)
    · exact ⟨fun h => by simp [h.caKey] at hkey, fun h => by simp [h.caKey] at hkey⟩
    · exact ⟨fun h => by simpa [hcert] using h.nodeCert, fun h => by simpa [hcert] using h.nodeCert⟩
    · exact ⟨fun h => by simpa [hkey] using h.nodeKey, fun h => by simpa [hkey] using h.nodeKey⟩
  · rintro ⟨horphaned, honboarded⟩
    unfold CanReissue
    by_contra hcan
    rw [not_or, not_or, Option.not_isSome_iff_eq_none] at hcan
    obtain ⟨hkey, hnodeCert, hnodeKey⟩ := hcan
    rw [← ne_eq, Option.ne_none_iff_isSome] at hnodeCert hnodeKey
    cases hcaCert : files .caCert with
    | none => exact horphaned ⟨hcaCert, hkey, hnodeCert, hnodeKey⟩
    | some _ => exact honboarded ⟨by simp [hcaCert], hkey, hnodeCert, hnodeKey⟩

theorem caState_of_canReissue (hkey : files .caKey = none) (h : CanReissue files) :
    caState forge env files = .reissue [] := by
  unfold caState
  rw [hkey]
  cases files .caCert with
  | none => rfl
  | some caCertPem =>
      rcases h with hsome | hcert | hnodeKey
      · simp [hkey] at hsome
      · rw [hcert]
      · rw [hnodeKey]
        cases files .nodeCert <;> rfl

/-- No start that dies leaves what looks like another node. -/
theorem canReissue_after (h : CanReissue files) {done : List (BundleFile × String)}
    (hdone : done.map Prod.fst <+: (loadOrCreateTlsBundle forge env args files).writes.map Prod.fst) :
    CanReissue (files.after done) := by
  cases hkey : files .caKey with
  | some key => exact .inl (BundleFiles.isSome_after _ (by simp [hkey]))
  | none =>
      have hnode : files .nodeCert = none ∨ files .nodeKey = none := by
        rcases h with hsome | hnode
        · simp [hkey] at hsome
        · exact hnode
      unfold loadOrCreateTlsBundle at hdone
      rw [caState_of_canReissue hkey h] at hdone
      dsimp only at hdone
      cases hca : createMeshCA forge env.now env.caDraw "thinklocal" args.nodeId env.caSerial with
      | none =>
          rw [hca, List.map_nil, List.prefix_nil, List.map_eq_nil_iff] at hdone
          rw [hdone]
          exact .inr hnode
      | some ca =>
          rw [hca] at hdone
          dsimp only at hdone
          rw [List.nil_append, List.append_assoc, List.cons_append, List.cons_append, List.map_cons,
            List.map_cons] at hdone
          rcases done with _ | ⟨⟨f, text⟩, _ | ⟨⟨f', text'⟩, rest⟩⟩
          · exact .inr hnode
          · obtain ⟨rfl, -⟩ := List.cons_prefix_cons.mp hdone
            exact .inr (by simpa [BundleFiles.after] using hnode)
          · -- the key of the authority is written before the node's certificate
            obtain ⟨-, hdone⟩ := List.cons_prefix_cons.mp hdone
            obtain ⟨rfl, -⟩ := List.cons_prefix_cons.mp hdone
            refine .inl ?_
            rw [BundleFiles.after_cons, BundleFiles.after_cons]
            exact BundleFiles.isSome_after _ (by simp)

/-- What an onboarded node has is never written. -/
theorem writes_of_onboarded (h : IsOnboarded files) :
    (loadOrCreateTlsBundle forge env args files).writes = [] := by
  obtain ⟨caCertPem, hcaCert⟩ := Option.isSome_iff_exists.mp h.caCert
  obtain ⟨certPem, hnodeCert⟩ := Option.isSome_iff_exists.mp h.nodeCert
  obtain ⟨keyPem, hnodeKey⟩ := Option.isSome_iff_exists.mp h.nodeKey
  unfold loadOrCreateTlsBundle
  rw [caState_onboarded_iff.mpr ⟨hcaCert, h.caKey, hnodeCert, hnodeKey⟩]
  dsimp only
  split <;> rfl

/-- A start, how many of its writes take place, and what the next one leaves in its file if the start
dies within it. -/
structure Start (forge : CertForge) where
  env : BundleEnv forge.PrivateKey
  args : BundleArgs
  written : ℕ
  torn : Option String

/-- The writes of a start that dies. -/
def Start.done (a : Start forge) (files : BundleFiles) : List (BundleFile × String) :=
  let writes := (loadOrCreateTlsBundle forge a.env a.args files).writes
  let partly := a.torn.bind fun text => (writes.drop a.written).head?.map fun w => (w.1, text)
  writes.take a.written ++ partly.toList

theorem Start.done_prefix (a : Start forge) (files : BundleFiles) :
    (a.done files).map Prod.fst <+:
      (loadOrCreateTlsBundle forge a.env a.args files).writes.map Prod.fst := by
  unfold Start.done
  generalize (loadOrCreateTlsBundle forge a.env a.args files).writes = writes
  have hsplit := List.take_append_drop a.written writes
  dsimp only
  generalize writes.take a.written = start at hsplit ⊢
  generalize writes.drop a.written = rest at hsplit ⊢
  rw [← hsplit, List.map_append, List.map_append, List.prefix_append_right_inj]
  cases a.torn with
  | none => simp
  | some text => cases rest <;> simp

/-- Starts that die between two writes, within one or behind the last one. -/
def starts (forge : CertForge) (start : BundleFiles) : Machine BundleFiles (Start forge) where
  init := start
  step s a := some (s.after (a.done s))

theorem starts_inv (horphaned : ¬ IsOrphaned start) (hs : (starts forge start).Reachable s) :
    IsOnboarded start ∧ s = start ∨ ¬ IsOnboarded start ∧ CanReissue s := by
  refine hs.invariant (I := fun s => IsOnboarded start ∧ s = start ∨
    ¬ IsOnboarded start ∧ CanReissue s) ?_ ?_
  · by_cases h : IsOnboarded start
    · exact .inl ⟨h, rfl⟩
    · exact .inr ⟨h, canReissue_iff.mpr ⟨horphaned, h⟩⟩
  · rintro s a s' hinv hstep
    obtain rfl := Option.some.inj hstep
    have hdone := a.done_prefix s
    rcases hinv with ⟨h, rfl⟩ | ⟨h, hcan⟩
    · refine .inl ⟨h, ?_⟩
      rw [writes_of_onboarded h, List.map_nil, List.prefix_nil, List.map_eq_nil_iff] at hdone
      rw [hdone]
      rfl
    · exact .inr ⟨h, canReissue_after hcan hdone⟩

/-- Keys can be generated and certificates can be signed. -/
structure Signs (forge : CertForge) (env : BundleEnv forge.PrivateKey) (args : BundleArgs) : Prop where
  ca : (createMeshCA forge env.now env.caDraw "thinklocal" args.nodeId env.caSerial).isSome
  node : ∀ ca, GoodCa forge env.now ca → (createNodeCert forge env.now env.nodeDraw ca args.hostname
    args.spiffeUri env.localIps none).isSome

theorem freshNode_isSome (hsigns : Signs forge env args) {ca : CaBundle}
    (hca : GoodCa forge env.now ca) : (freshNode forge env args ca).result.isSome := by
  obtain ⟨bundle, hcreate⟩ := Option.isSome_iff_exists.mp (hsigns.node ca hca)
  unfold freshNode
  rw [hcreate]
  rfl

theorem existingNode_isSome (hsigns : Signs forge env args) {ca : CaBundle}
    (hca : GoodCa forge env.now ca) (certPem keyPem : String) :
    (existingNode forge env args ca certPem keyPem).result.isSome := by
  unfold existingNode
  split
  · exact freshNode_isSome hsigns hca
  · dsimp only
    split
    · next run hrun =>
        obtain ⟨uri, -, hmigrate⟩ := Option.bind_eq_some_iff.mp hrun
        unfold migrateAlone at hmigrate
        split at hmigrate
        · obtain ⟨canonical, -, rfl⟩ := Option.map_eq_some_iff.mp hmigrate
          rfl
        · cases hmigrate
    · split
      · rfl
      · exact freshNode_isSome hsigns hca

theorem result_of_canReissue (hforge : forge.Lawful) (hsigns : Signs forge env args)
    (h : CanReissue files) : (loadOrCreateTlsBundle forge env args files).result.isSome := by
  unfold loadOrCreateTlsBundle
  cases hstate : caState forge env files with
  | onboarded caCertPem certPem keyPem =>
      obtain ⟨hcaCert, hcaKey, hnodeCert, hnodeKey⟩ := caState_onboarded_iff.mp hstate
      have honboarded : IsOnboarded files :=
        ⟨by simp [hcaCert], hcaKey, by simp [hnodeCert], by simp [hnodeKey]⟩
      exact absurd honboarded (canReissue_iff.mp h).2
  | loaded ca =>
      have hgood := (goodCa_of_caState hstate).2.2
      dsimp only
      split
      · exact existingNode_isSome hsigns hgood _ _
      · exact freshNode_isSome hsigns hgood
  | reissue backups =>
      obtain ⟨ca, hca⟩ := Option.isSome_iff_exists.mp hsigns.ca
      dsimp only
      rw [hca]
      exact freshNode_isSome hsigns (goodCa_createMeshCA hforge hca)

/-- The certificate and key of an onboarded node can be used. -/
def OnboardedValid (forge : CertForge) (now : ℤ) (files : BundleFiles) : Prop :=
  ∀ caCertPem certPem keyPem, files .caCert = some caCertPem → files .nodeCert = some certPem →
    files .nodeKey = some keyPem → certKeyMatches forge certPem keyPem = true ∧
      verifyPeerCert forge.toForge now caCertPem certPem = true

theorem result_of_onboarded (h : IsOnboarded files) :
    (loadOrCreateTlsBundle forge env args files).result.isSome ↔
      OnboardedValid forge env.now files := by
  obtain ⟨caCertPem, hcaCert⟩ := Option.isSome_iff_exists.mp h.caCert
  obtain ⟨certPem, hnodeCert⟩ := Option.isSome_iff_exists.mp h.nodeCert
  obtain ⟨keyPem, hnodeKey⟩ := Option.isSome_iff_exists.mp h.nodeKey
  unfold loadOrCreateTlsBundle
  rw [caState_onboarded_iff.mpr ⟨hcaCert, h.caKey, hnodeCert, hnodeKey⟩]
  dsimp only
  have hvalid : OnboardedValid forge env.now files ↔ (certKeyMatches forge certPem keyPem &&
      verifyPeerCert forge.toForge env.now caCertPem certPem) = true := by
    rw [Bool.and_eq_true_iff]
    constructor
    · exact fun hvalid => hvalid caCertPem certPem keyPem hcaCert hnodeCert hnodeKey
    · intro hpair ca cert key hca hcert hkey
      obtain rfl := Option.some.inj (hcaCert.symm.trans hca)
      obtain rfl := Option.some.inj (hnodeCert.symm.trans hcert)
      obtain rfl := Option.some.inj (hnodeKey.symm.trans hkey)
      exact hpair
  rw [hvalid]
  split
  · next h => exact iff_of_true rfl h
  · next h => exact iff_of_false nofun h

/-- However often a start has died, the next one returns a certificate that fits its key and that an
authority has signed, and leaves it in the files; only a node that was onboarded depends on what
it was given. -/
theorem start_recovers (hforge : forge.Lawful) (horphaned : ¬ IsOrphaned start)
    (hs : (starts forge start).Reachable s) (hsigns : Signs forge env args) :
    ((loadOrCreateTlsBundle forge env args s).result.isSome ↔
        (IsOnboarded start → OnboardedValid forge env.now start)) ∧
      ∀ bundle, (loadOrCreateTlsBundle forge env args s).result = some bundle →
        Sound forge env.now args.retention.trustedAttestingCaPems bundle ∧
          Saved (s.after (loadOrCreateTlsBundle forge env args s).writes) bundle := by
  constructor
  · rcases starts_inv horphaned hs with ⟨h, rfl⟩ | ⟨h, hcan⟩
    · rw [result_of_onboarded h]
      exact ⟨fun hvalid _ => hvalid, fun hvalid => hvalid h⟩
    · exact iff_of_true (result_of_canReissue hforge hsigns hcan) fun honboarded => absurd honboarded h
  · intro bundle hresult
    have houtcome := outcome_of_result hresult
    exact ⟨sound_of_outcome hforge houtcome, saved_of_outcome houtcome⟩

end Recovery

/-! ## Starts one after another -/

section Restarts

variable {forge : CertForge} {now : ℤ} {env env' : BundleEnv forge.PrivateKey} {args : BundleArgs}
  {files : BundleFiles} {bundle : NodeCertBundle} {writes : List (BundleFile × String)}

/-- The settings with which a certificate that is made is kept. -/
structure Steady (forge : CertForge) (now : ℤ) (args : BundleArgs) : Prop where
  /-- The name of the node can be read back. -/
  spiffeUri : startsWith args.spiffeUri "spiffe://thinklocal/" = true
  /-- A new certificate is not due at once. -/
  due : args.renewBeforeDays <
    (forge.addDays now NODE_CERT_VALIDITY_DAYS / 1000 * 1000 - now) / 86400000
  canonical : args.retention.migrateLegacyIdentity = true → ∀ uri,
    args.retention.canonicalSpiffeUri = some uri → startsWith uri "spiffe://thinklocal/" = true

/-- What an authority issues is verified against the anchors of a list. -/
def Attests (forge : CertForge) (now : ℤ) (trusted : List String) (caCertPem : String) : Prop :=
  ∀ leafPem leaf, forge.certificateFromPem leafPem = some leaf → forge.validAt now leaf = true →
    IssuedBy forge.toForge leaf caCertPem = true →
      verifyPeerCertChain forge.toForge now trusted [leafPem] = true

/-- The files with which a start returns a bundle, unless it migrates. -/
inductive Accepted (forge : CertForge) (now : ℤ) (args : BundleArgs) :
    BundleFiles → NodeCertBundle → Prop
  | onboarded {files : BundleFiles} {caCertPem certPem keyPem : String}
      (hcaCert : files .caCert = some caCertPem) (hcaKey : files .caKey = none)
      (hnodeCert : files .nodeCert = some certPem) (hnodeKey : files .nodeKey = some keyPem)
      (hpair : certKeyMatches forge certPem keyPem = true)
      (hverify : verifyPeerCert forge.toForge now caCertPem certPem = true) :
      Accepted forge now args files ⟨certPem, keyPem, caCertPem⟩
  | kept {files : BundleFiles} {ca : CaBundle} {cert : forge.Certificate} {certPem keyPem : String}
      (hcaCert : files .caCert = some ca.caCertPem) (hcaKey : files .caKey = some ca.caKeyPem)
      (hgood : GoodCa forge now ca) (hnodeCert : files .nodeCert = some certPem)
      (hnodeKey : files .nodeKey = some keyPem)
      (hcert : forge.certificateFromPem certPem = some cert)
      (hkept : ∀ env : BundleEnv forge.PrivateKey, env.now = now →
        isKept forge env args ca cert certPem keyPem = true) :
      Accepted forge now args files ⟨certPem, keyPem, ca.caCertPem⟩

theorem isKept_congr (hnow : env.now = env'.now) {ca : CaBundle} {cert : forge.Certificate}
    {certPem keyPem : String} :
    isKept forge env args ca cert certPem keyPem = isKept forge env' args ca cert certPem keyPem := by
  unfold isKept daysLeft
  rw [hnow]

/-- A certificate that has just been signed passes the tests that do not ask for its name. -/
theorem isKept_of_issued (hsteady : Steady forge env.now args) {ca : CaBundle}
    {hostname uri keyPem : String} (hissued : Issued forge env.now ca hostname uri bundle)
    {cert : forge.Certificate} (hcert : forge.certificateFromPem bundle.certPem = some cert)
    (hpair : certKeyMatches forge bundle.certPem keyPem = true)
    (hname : uri = args.spiffeUri ∨
      isRetainableCanonicalCert forge env.now bundle.certPem args.retention.canonicalSpiffeUri
        args.retention.trustedAttestingCaPems = true) :
    isKept forge env args ca cert bundle.certPem keyPem = true := by
  obtain ⟨cert', hcert', hvalid, hnotAfter, hsigned⟩ := hissued.read
  obtain rfl := Option.some.inj (hcert.symm.trans hcert')
  -- a new certificate is not due yet
  have hdays : args.renewBeforeDays < daysLeft forge env cert := by
    unfold daysLeft
    rw [hnotAfter]
    exact hsteady.due
  have hgate : (extractSpiffeUri forge bundle.certPem = some args.spiffeUri ∧
      (forge.certificateFromPem ca.caCertPem).any (forge.issued · cert) = true) ∨
      isRetainableCanonicalCert forge env.now bundle.certPem args.retention.canonicalSpiffeUri
        args.retention.trustedAttestingCaPems = true := by
    rcases hname with rfl | hretain
    · refine .inl ⟨?_, hsigned⟩
      unfold extractSpiffeUri
      rw [hissued.uris, if_pos hsteady.spiffeUri]
      rfl
    · exact .inr hretain
  unfold isKept
  simpa [hvalid, hdays, hpair] using hgate

theorem isRetainable_of_issued {ca : CaBundle} {hostname uri : String}
    (hissued : Issued forge now ca hostname uri bundle) (hne : uri ≠ "")
    (hstart : startsWith uri "spiffe://thinklocal/" = true)
    {trusted : List String}
    (hchain : verifyPeerCertChain forge.toForge now trusted [bundle.certPem] = true) :
    isRetainableCanonicalCert forge now bundle.certPem (some uri) trusted = true := by
  have hlength : trusted.length ≠ 0 := by
    intro hzero
    unfold verifyPeerCertChain at hchain
    rw [if_pos (.inl hzero)] at hchain
    cases hchain
  unfold isRetainableCanonicalCert
  split
  · next heq => cases heq
  · next heq => exact absurd (Option.some.inj heq) hne
  · next found _ heq =>
      obtain rfl := Option.some.inj heq
      rw [if_neg hlength, hissued.uris, if_pos hstart]
      simpa using hchain

theorem accepted_of_outcome (hforge : forge.Lawful) (hsteady : Steady forge env.now args)
    (hattests : args.retention.migrateLegacyIdentity = true →
      Attests forge env.now args.retention.trustedAttestingCaPems bundle.caCertPem)
    (h : Outcome forge env args files bundle writes) :
    Accepted forge env.now args (files.after writes) bundle := by
  have hsaved := saved_of_outcome h
  cases h with
  | onboarded hstate hpair hverify =>
      obtain ⟨hcaCert, hcaKey, hnodeCert, hnodeKey⟩ := caState_onboarded_iff.mp hstate
      exact .onboarded hcaCert hcaKey hnodeCert hnodeKey hpair hverify
  | kept hstate hnodeCert hnodeKey hcert hkept hstays =>
      obtain ⟨hcaCert, hcaKey, hgood⟩ := goodCa_of_caState hstate
      exact .kept hcaCert hcaKey hgood hnodeCert hnodeKey hcert
        fun env' hnow => (isKept_congr hnow).trans hkept
  | @migrated ca cert certPem keyPem uri canonical hstate hnodeCert hnodeKey hcert huri hcreate =>
      obtain ⟨hcaCert, hcaKey, hgood⟩ := goodCa_of_caState hstate
      obtain ⟨hmatches, -, hcanonical, hne, hmigrate⟩ := matches_of_migratesTo huri
      have hissued := issued_of_createNodeCert hforge hgood hcreate
      obtain ⟨cert', hcert', hvalid, -, hsigned⟩ := hissued.read
      have hpair := (certKeyMatches_createNodeCert hforge (keyPem_ne_of_matches hforge hmatches)
        hcreate).2
      -- the new certificate has the canonical name, so the retention keeps it
      have hretain := isRetainable_of_issued hissued hne (hsteady.canonical hmigrate uri hcanonical)
        (hattests hmigrate _ _ hcert' hvalid hsigned)
      refine .kept hsaved.caCert ?_ hgood hsaved.nodeCert hsaved.nodeKey hcert' fun env' hnow => ?_
      · simpa [BundleFiles.after] using hcaKey
      · rw [isKept_congr hnow]
        exact isKept_of_issued hsteady hissued hcert' hpair (.inr (hcanonical ▸ hretain))
  | @fresh ca bundle before hca hcreate =>
      -- the authority was in the files or has just been made
      have hgood : GoodCa forge env.now ca := by
        rcases hca with ⟨hstate, -⟩ | ⟨backups, -, hmesh, -⟩
        · exact (goodCa_of_caState hstate).2.2
        · exact goodCa_createMeshCA hforge hmesh
      have hissued := issued_of_createNodeCert hforge hgood hcreate
      obtain ⟨cert', hcert', -⟩ := hissued.read
      -- what is written after the authority does not touch its key
      have hcaKey : files.after before .caKey = some ca.caKeyPem := by
        rcases hca with ⟨hstate, rfl⟩ | ⟨backups, -, -, rfl⟩
        · exact (goodCa_of_caState hstate).2.1
        · rw [BundleFiles.after_append,
            BundleFiles.after_of_notMem (notMem_legacyNode (by decide) (by decide)),
            BundleFiles.after_append]
          simp [BundleFiles.after]
      have hbundle : (⟨bundle.certPem, bundle.keyPem, ca.caCertPem⟩ : NodeCertBundle) = bundle := by
        rw [← hissued.caCertPem]
      rw [← hbundle]
      refine .kept (hissued.caCertPem ▸ hsaved.caCert) ?_ hgood hsaved.nodeCert hsaved.nodeKey hcert'
        fun env' hnow => ?_
      · rw [BundleFiles.after_append]
        simpa [BundleFiles.after] using hcaKey
      · rw [isKept_congr hnow]
        exact isKept_of_issued hsteady hissued hcert' hissued.pair (.inl rfl)

theorem caState_of_good {ca : CaBundle} (hcaCert : files .caCert = some ca.caCertPem)
    (hcaKey : files .caKey = some ca.caKeyPem) (hgood : GoodCa forge env.now ca) :
    caState forge env files = .loaded ca := by
  unfold caState
  rw [hcaCert, hcaKey]
  exact existingCa_of_good hgood

/-- A start on accepted files keeps them, or it migrates the key to a name that the certificate does
not carry. -/
theorem load_of_accepted (hforge : forge.Lawful) (hsteady : Steady forge env.now args)
    (h : Accepted forge env.now args files bundle) :
    loadOrCreateTlsBundle forge env args files = ⟨[], some bundle⟩ ∨
      args.retention.migrateLegacyIdentity = true ∧ ∃ uri writes bundle',
        args.retention.canonicalSpiffeUri = some uri ∧
          uri ∉ extractSpiffeUris forge bundle.certPem ∧
            loadOrCreateTlsBundle forge env args files = ⟨writes, some bundle'⟩ ∧
              uri ∈ extractSpiffeUris forge bundle'.certPem ∧
                bundle'.keyPem = bundle.keyPem ∧ bundle'.caCertPem = bundle.caCertPem := by
  cases h with
  | onboarded hcaCert hcaKey hnodeCert hnodeKey hpair hverify =>
      refine .inl ?_
      unfold loadOrCreateTlsBundle
      rw [caState_onboarded_iff.mpr ⟨hcaCert, hcaKey, hnodeCert, hnodeKey⟩]
      simp [hpair, hverify]
  | @kept ca cert certPem keyPem hcaCert hcaKey hgood hnodeCert hnodeKey hcert hkept =>
      have hload : loadOrCreateTlsBundle forge env args files =
          existingNode forge env args ca certPem keyPem := by
        unfold loadOrCreateTlsBundle
        rw [caState_of_good hcaCert hcaKey hgood, hnodeCert, hnodeKey]
      rw [hload]
      unfold existingNode
      rw [hcert]
      dsimp only
      -- the only thing that may still happen is the migration
      cases hmigrated : (migratesTo forge env args ca cert certPem keyPem).bind fun uri =>
          migrateAlone forge env args ca uri certPem keyPem with
      | none => exact .inl (if_pos (hkept env rfl))
      | some run =>
          obtain ⟨uri, huri, hrun⟩ := Option.bind_eq_some_iff.mp hmigrated
          obtain ⟨-, hother, hcanonical, -, hmigrate⟩ := matches_of_migratesTo huri
          unfold migrateAlone at hrun
          split at hrun
          · obtain ⟨canonical, hcreate, rfl⟩ := Option.map_eq_some_iff.mp hrun
            have huri : uri ∈ extractSpiffeUris forge canonical.certPem :=
              spiffeUri_mem_createNodeCert hforge (hsteady.canonical hmigrate uri hcanonical) hcreate
            exact .inr ⟨hmigrate, uri, _, _, hcanonical, hother, rfl, huri, rfl, rfl⟩
          · cases hrun

/-- Starts one after another, each on the files that the one before has left. -/
def restarts (forge : CertForge) (args : BundleArgs) :
    BundleFiles → List (BundleEnv forge.PrivateKey) → List BundleRun
  | _, [] => []
  | files, env :: rest =>
      let run := loadOrCreateTlsBundle forge env args files
      run :: restarts forge args (files.after run.writes) rest

/-- Once the certificate carries the name that is migrated to, nothing changes any more. -/
theorem restarts_of_canonical (hforge : forge.Lawful) (hsteady : Steady forge now args)
    (h : Accepted forge now args files bundle)
    (hcanonical : args.retention.migrateLegacyIdentity = true → ∀ uri,
      args.retention.canonicalSpiffeUri = some uri → uri ∈ extractSpiffeUris forge bundle.certPem)
    (envs : List (BundleEnv forge.PrivateKey)) (hnow : ∀ env ∈ envs, env.now = now) :
    restarts forge args files envs = List.replicate envs.length ⟨[], some bundle⟩ := by
  induction envs with
  | nil => rfl
  | cons env rest ih =>
      obtain rfl := hnow env List.mem_cons_self
      have hload : loadOrCreateTlsBundle forge env args files = ⟨[], some bundle⟩ := by
        rcases load_of_accepted hforge hsteady h with hkeeps | ⟨hmigrate, uri, -, -, huri, hother, -⟩
        · exact hkeeps
        · exact absurd (hcanonical hmigrate uri huri) hother
      rw [restarts, hload, List.length_cons, List.replicate_succ]
      exact congrArg (_ :: ·) (ih fun env henv => hnow env (List.mem_cons_of_mem _ henv))

/-- Starts settle: after one that has returned a bundle, all others return it and write nothing, but
for one that migrates its key to the canonical name; from then on all return what that one did. -/
theorem restarts_settle (hforge : forge.Lawful) (hsteady : Steady forge env.now args)
    (hstart : (loadOrCreateTlsBundle forge env args files).result = some bundle)
    (hattests : args.retention.migrateLegacyIdentity = true →
      Attests forge env.now args.retention.trustedAttestingCaPems bundle.caCertPem)
    (envs : List (BundleEnv forge.PrivateKey)) (hnow : ∀ env' ∈ envs, env'.now = env.now) :
    let runs := restarts forge args (files.after (loadOrCreateTlsBundle forge env args files).writes)
      envs
    runs = List.replicate envs.length ⟨[], some bundle⟩ ∨
      args.retention.migrateLegacyIdentity = true ∧ ∃ before after writes bundle',
        runs = List.replicate before ⟨[], some bundle⟩ ++ ⟨writes, some bundle'⟩ ::
            List.replicate after ⟨[], some bundle'⟩ ∧
          bundle'.keyPem = bundle.keyPem ∧ bundle'.caCertPem = bundle.caCertPem := by
  intro runs
  have hfirst : Accepted forge env.now args
      (files.after (loadOrCreateTlsBundle forge env args files).writes) bundle :=
    accepted_of_outcome hforge hsteady hattests (outcome_of_result hstart)
  dsimp only [runs]
  generalize files.after (loadOrCreateTlsBundle forge env args files).writes = once at hfirst ⊢
  clear runs hstart
  induction envs with
  | nil => exact .inl rfl
  | cons env' rest ih =>
      have hnow' : env'.now = env.now := hnow env' List.mem_cons_self
      have hrest : ∀ env'' ∈ rest, env''.now = env.now :=
        fun env'' henv => hnow env'' (List.mem_cons_of_mem _ henv)
      -- the start keeps the bundle or migrates its key
      rcases load_of_accepted hforge (hnow' ▸ hsteady) (hnow' ▸ hfirst) with
        hkeeps | ⟨hmigrate, uri, writes, bundle', hcanonical, -, hmigrates, huri, hkey, hca⟩
      · rw [restarts, hkeeps]
        rcases ih hrest with hsame | ⟨hmigrate, before, after, writes, bundle', hruns, hkeys⟩
        · refine .inl ?_
          rw [List.length_cons, List.replicate_succ]
          exact congrArg (_ :: ·) hsame
        · refine .inr ⟨hmigrate, before + 1, after, writes, bundle', ?_, hkeys⟩
          rw [List.replicate_succ, List.cons_append]
          exact congrArg (_ :: ·) hruns
      · refine .inr ⟨hmigrate, 0, rest.length, writes, bundle', ?_, hkey, hca⟩
        -- after the migration the name is canonical, and no start writes again
        have hnext : Accepted forge env.now args (once.after writes) bundle' := by
          have houtcome := outcome_of_result (congrArg BundleRun.result hmigrates)
          rw [hmigrates] at houtcome
          rw [← hnow']
          refine accepted_of_outcome hforge (hnow' ▸ hsteady) (fun hmigrate => ?_) houtcome
          rw [hnow', hca]
          exact hattests hmigrate
        rw [restarts, hmigrates]
        refine congrArg (_ :: ·) (restarts_of_canonical hforge hsteady hnext (fun _ uri' huri' => ?_)
          rest hrest)
        obtain rfl := Option.some.inj (hcanonical.symm.trans huri')
        exact huri

end Restarts

/-! ## Runs -/

def meshAuthority : CertTemplate Unit where
  publicKey := ()
  serialNumber := "01"
  notBefore := 0
  notAfter := 365 * 86400000
  commonName := "thinklocal Mesh CA id"
  cA := true
  keyUsage := ["keyCertSign", "cRLSign"]

def nodeCertificate (spiffeUri : String) : CertTemplate Unit where
  publicKey := ()
  serialNumber := "02"
  notBefore := 0
  notAfter := 90 * 86400000
  commonName := "host"
  cA := false
  keyUsage := ["digitalSignature", "keyEncipherment"]
  extKeyUsage := ["serverAuth", "clientAuth"]
  altNames := some [⟨2, "host"⟩, ⟨2, "localhost"⟩, ⟨6, spiffeUri⟩]

def hostUri : String := "spiffe://thinklocal/host/id"

def nodeUri : String := "spiffe://thinklocal/node/id"

/-- One key, which signs an authority and the certificates of its node. -/
def bundleForge : CertForge where
  Certificate := CertTemplate Unit
  certificateFromPem pem :=
    if pem = "ca" then some meshAuthority
    else if pem = "host" then some (nodeCertificate hostUri)
    else if pem = "node" then some (nodeCertificate nodeUri)
    else none
  notBefore := CertTemplate.notBefore
  notAfter := CertTemplate.notAfter
  basicConstraints cert := some ⟨cert.cA, none⟩
  verify _ _ := some true
  verifyCertificateChain _ _ _ := some true
  PublicKey := Unit
  decEq := inferInstance
  PrivateKey := Unit
  publicKey := CertTemplate.publicKey
  publicOf := id
  privateKeyFromPem pem := if pem = "key" then some () else none
  privateKeyToPem _ := "key"
  commonName cert := some cert.commonName
  altNames := CertTemplate.altNames
  signedPem _ _ t :=
    if t = meshAuthority then some "ca"
    else if t = nodeCertificate hostUri then some "host"
    else if t = nodeCertificate nodeUri then some "node"
    else none
  addDays now days := now + days * 86400000

theorem bundleForge_lawful : bundleForge.Lawful where
  reads {issuer key t pem} h := by
    dsimp only [bundleForge] at h
    split_ifs at h with hca hhost hnode
    · obtain ⟨rfl, rfl⟩ := And.intro hca (Option.some.inj h)
      exact ⟨meshAuthority, rfl, rfl, rfl, rfl, by decide, by decide, by decide, by decide⟩
    · obtain ⟨rfl, rfl⟩ := And.intro hhost (Option.some.inj h)
      exact ⟨nodeCertificate hostUri, rfl, rfl, rfl, rfl, by decide, by decide, by decide, by decide⟩
    · obtain ⟨rfl, rfl⟩ := And.intro hnode (Option.some.inj h)
      exact ⟨nodeCertificate nodeUri, rfl, rfl, rfl, rfl, by decide, by decide, by decide, by decide⟩
  readsKey _ := rfl
  readsNothing := rfl
  verifies _ _ _ := rfl
  addDays now days := by
    dsimp only [bundleForge]
    omega

def bundleArgs : BundleArgs where
  hostname := "host"
  spiffeUri := hostUri
  nodeId := some "id"
  retention :=
    { canonicalSpiffeUri := some nodeUri
      trustedAttestingCaPems := ["ca"]
      migrateLegacyIdentity := true }

/-- A start of the node, which may migrate if it gets the lock. -/
def bundleEnv (locks : Bool) : BundleEnv Unit where
  now := 0
  caDraw := ⟨"01", ()⟩
  caSerial := ""
  nodeDraw := ⟨"02", ()⟩
  localIps := []
  locks := locks

theorem bundleEnv_signs : Signs bundleForge (bundleEnv false) bundleArgs where
  ca := by decide
  node ca hca := by
    obtain ⟨cert, key, hcert, hkey, -⟩ := hca
    unfold createNodeCert
    rw [hcert, hkey]
    rfl

/-- A first start dies while it writes the key of its authority; the next one recovers. -/
theorem start_recovers_torn :
    let torn : Start bundleForge := ⟨bundleEnv false, bundleArgs, 1, some "ke"⟩
    ∃ s, (starts bundleForge fun _ => none).runFrom (fun _ => none) [torn] = some s ∧
      s .caKey = some "ke" ∧
      (loadOrCreateTlsBundle bundleForge (bundleEnv false) bundleArgs s).result.isSome := by
  intro torn
  have hrun : (starts bundleForge fun _ => none).runFrom (fun _ => none) [torn] = some _ := rfl
  have hreach := Machine.reachable_of_runFrom hrun
  have horphaned : ¬ IsOrphaned fun _ => none := fun h => nomatch h.nodeCert
  refine ⟨_, rfl, rfl, ?_⟩
  exact (start_recovers bundleForge_lawful horphaned hreach bundleEnv_signs).1.mpr
    fun h => nomatch h.nodeCert

theorem bundleArgs_steady : Steady bundleForge (bundleEnv false).now bundleArgs where
  spiffeUri := by decide
  due := by decide
  canonical _ uri huri := by
    obtain rfl := Option.some.inj huri
    decide

theorem attests_ca : Attests bundleForge (bundleEnv false).now ["ca"] "ca" := by
  intro leafPem leaf hleaf _ _
  dsimp only [bundleForge] at hleaf
  split_ifs at hleaf with hca hhost hnode
  · rw [hca]
    decide
  · rw [hhost]
    decide
  · rw [hnode]
    decide

/-- The first start makes a certificate under the legacy name, the second one cannot migrate it, the
third one does, and the fourth one keeps what the third one has made. -/
theorem restarts_settle_migrating :
    let first := loadOrCreateTlsBundle bundleForge (bundleEnv false) bundleArgs fun _ => none
    let runs := restarts bundleForge bundleArgs (BundleFiles.after (fun _ => none) first.writes)
      [bundleEnv false, bundleEnv true, bundleEnv true]
    runs.map BundleRun.result =
        [some ⟨"host", "key", "ca"⟩, some ⟨"node", "key", "ca"⟩, some ⟨"node", "key", "ca"⟩] ∧
      ∃ before after writes bundle', runs =
        List.replicate before ⟨[], some ⟨"host", "key", "ca"⟩⟩ ++ ⟨writes, some bundle'⟩ ::
          List.replicate after ⟨[], some bundle'⟩ := by
  intro first runs
  have hresults : runs.map BundleRun.result =
      [some ⟨"host", "key", "ca"⟩, some ⟨"node", "key", "ca"⟩, some ⟨"node", "key", "ca"⟩] := by
    decide +kernel
  refine ⟨hresults, ?_⟩
  have hstart : (loadOrCreateTlsBundle bundleForge (bundleEnv false) bundleArgs
      fun _ => none).result = some ⟨"host", "key", "ca"⟩ := by decide +kernel
  have hnow : ∀ env ∈ [bundleEnv false, bundleEnv true, bundleEnv true],
      env.now = (bundleEnv false).now := by
    intro env henv
    simp only [List.mem_cons, List.not_mem_nil, or_false] at henv
    rcases henv with rfl | rfl | rfl <;> rfl
  rcases restarts_settle bundleForge_lawful bundleArgs_steady hstart (fun _ => attests_ca) _ hnow
    with hsame | ⟨-, before, after, writes, bundle', hruns, -⟩
  · exact absurd (hresults.symm.trans (congrArg (List.map BundleRun.result) hsame)) (by decide)
  · exact ⟨before, after, writes, bundle', hruns⟩

end ThinkLocal.Tls
