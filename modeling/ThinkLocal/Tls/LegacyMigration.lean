import ThinkLocal.Foundation.Machine
import ThinkLocal.Foundation.SharedFiles
import ThinkLocal.Tls.NodeCertificates

/-!
# Migrating a legacy certificate

`migrateLegacyCertToCanonical` of `tls.ts`, run by any number of processes on one directory.  The
lock is created exclusively and released by its name, a stale lock is removed by its name, and all
processes write the same temporary file before they rename it.  A process can fail at every call
and can die between any two.
-/

namespace ThinkLocal.Tls

open Foundation

/-- The files of the directory that a migration touches. -/
inductive TlsFile
  /-- `.migrate.lock`. -/
  | lock
  /-- `node.crt.pem`. -/
  | nodeCert
  /-- `node.key.pem`. -/
  | nodeKey
  /-- `node.crt.pem.tmp`. -/
  | tmp
  /-- `node.crt.legacy-premigrate.pem`. -/
  | premigrate
deriving DecidableEq

abbrev TlsDir := Directory TlsFile Char

structure MigrateArgs where
  ca : CaBundle
  hostname : String
  canonicalSpiffeUri : String
  localIps : List String
  existingKeyPem : String

/-- What the holder of the lock does next. -/
inductive Work
  | rereading
  /-- `readFileSync(nodeKeyPath)` for a certificate that is canonical. -/
  | keeping (curCertPem : String)
  | signing (curCertPem : String)
  | archiving (curCertPem : String) (canonical : NodeCertBundle)
  /-- `writeFileSync` with what it has left to write. -/
  | copying (file position : ℕ) (rest : List Char) (canonical : NodeCertBundle)
  | opening (canonical : NodeCertBundle)
  | writing (file : ℕ) (canonical : NodeCertBundle)
  | syncing (canonical : NodeCertBundle)
  | installing (canonical : NodeCertBundle)
  /-- `unlinkSync(tmp)` after an error. -/
  | cleaning
  | releasing (result : Option NodeCertBundle)

inductive Phase
  /-- `openSync(lockPath, 'wx')`. -/
  | creating
  /-- `statSync(lockPath)`. -/
  | looking
  /-- `unlinkSync(lockPath)` of a stale lock. -/
  | stealing
  | holding (lock : ℕ) (work : Work)
  | returned (result : Option NodeCertBundle)
  | crashed

/-- What happens at the next call of a process. -/
inductive CallEvent (PrivateKey : Type)
  /-- The call does what the directory lets it. -/
  | proceeds
  | throws
  /-- Whether the lock is found to be stale, and whether the deadline has passed. -/
  | looks (stale late : Bool)
  /-- The clock and what is drawn in `createNodeCert`. -/
  | signs (now : ℤ) (draw : Draw PrivateKey)
  /-- How much a call of `write` has written. -/
  | writes (count : ℕ)
  | dies

section Model

variable (forge : CertForge)

def Work.advance (args : MigrateArgs) (dir : TlsDir) :
    Work → CallEvent forge.PrivateKey → Option (TlsDir × Work)
  | rereading, .proceeds =>
      match dir.content .nodeCert with
      | none => some (dir, releasing none)
      | some text =>
          let curCertPem := String.ofList text
          if args.canonicalSpiffeUri ∈ extractSpiffeUris forge curCertPem
          then some (dir, keeping curCertPem) else some (dir, signing curCertPem)
  | keeping curCertPem, .proceeds =>
      some (dir, releasing ((dir.content .nodeKey).map fun key =>
        ⟨curCertPem, String.ofList key, args.ca.caCertPem⟩))
  | signing curCertPem, .signs now draw =>
      match createNodeCert forge now draw args.ca args.hostname args.canonicalSpiffeUri
        args.localIps (some args.existingKeyPem) with
      | none => some (dir, releasing none)
      | some canonical => some (dir, archiving curCertPem canonical)
  | archiving curCertPem canonical, .proceeds =>
      let (file, opened) := dir.openTruncated .premigrate
      some (opened, copying file 0 curCertPem.toList canonical)
  | copying file position rest canonical, .writes count =>
      if count ≤ rest.length then
        some (dir.write '\x00' file position (rest.take count),
          copying file (position + count) (rest.drop count) canonical)
      else none
  | copying _ _ [] canonical, .proceeds => some (dir, opening canonical)
  | opening canonical, .proceeds =>
      let (file, opened) := dir.openTruncated .tmp
      some (opened, writing file canonical)
  | writing file canonical, .writes count =>
      -- the number that `writeSync` returns is not looked at
      if count ≤ canonical.certPem.length then
        some (dir.write '\x00' file 0 (canonical.certPem.toList.take count), syncing canonical)
      else none
  | syncing canonical, .proceeds => some (dir, installing canonical)
  | installing canonical, .proceeds =>
      match dir.rename .tmp .nodeCert with
      | none => some (dir, cleaning)
      | some renamed =>
          some (renamed, releasing (some ⟨canonical.certPem, args.existingKeyPem, args.ca.caCertPem⟩))
  | cleaning, .proceeds => some ((dir.unlink .tmp).getD dir, releasing none)
  | opening _, .throws | writing _ _, .throws | syncing _, .throws | installing _, .throws =>
      some (dir, cleaning)
  | rereading, .throws | keeping _, .throws | signing _, .throws | archiving _ _, .throws
  | copying _ _ _ _, .throws | cleaning, .throws => some (dir, releasing none)
  | _, _ => none

def Phase.advance (args : MigrateArgs) (dir : TlsDir) :
    Phase → CallEvent forge.PrivateKey → Option (TlsDir × Phase)
  | returned _, _ | crashed, _ => none
  | _, .dies => some (dir, crashed)
  | creating, .proceeds =>
      match dir.openExclusive .lock with
      | some (lock, locked) => some (locked, holding lock .rereading)
      | none => some (dir, looking)
  | creating, .throws => some (dir, returned none)
  | looking, .looks stale late =>
      if dir.entry .lock = none then some (dir, creating)
      else if stale then some (dir, stealing)
      else if late then some (dir, returned none)
      else some (dir, creating)
  | looking, .throws | stealing, .throws => some (dir, creating)
  | stealing, .proceeds => some ((dir.unlink .lock).getD dir, creating)
  | holding _ (.releasing result), .proceeds =>
      some ((dir.unlink .lock).getD dir, returned result)
  | holding _ (.releasing result), .throws => some (dir, returned result)
  | holding lock work, event =>
      (work.advance forge args dir event).map fun (dir', work') => (dir', holding lock work')
  | _, _ => none

/-- The directory and where every process is. -/
structure Migration (P : Type) where
  dir : TlsDir
  phase : P → Phase

variable {P : Type} [DecidableEq P]

/-- Processes with their arguments, on a directory in which none of them has begun. -/
def migration (args : P → MigrateArgs) (start : TlsDir) :
    Machine (Migration P) (P × CallEvent forge.PrivateKey) where
  init := ⟨start, fun _ => .creating⟩
  step s a :=
    ((s.phase a.1).advance forge (args a.1) s.dir a.2).map fun (dir, phase) =>
      ⟨dir, Function.update s.phase a.1 phase⟩

/-- A lock that is stolen is not held any more, and a `writeSync` that does not throw writes the
whole certificate. -/
structure Orderly (s : Migration P) (a : P × CallEvent forge.PrivateKey) : Prop where
  abandoned : s.phase a.1 = .stealing → a.2 = .proceeds → ∀ q lock work,
    s.phase q = .holding lock work → s.dir.entry .lock ≠ some lock
  whole : ∀ lock file canonical count, s.phase a.1 = .holding lock (.writing file canonical) →
    a.2 = .writes count → count = canonical.certPem.length

end Model

/-! ## What a holder relies on -/

section Holder

variable {forge : CertForge} (forge) (uri keyPem certPem : String)

/-- A certificate with the canonical name. -/
def IsCanonical (pem : String) : Prop := uri ∈ extractSpiffeUris forge pem

/-- A canonical certificate for the key of the node. -/
def IsMade (pem : String) : Prop :=
  IsCanonical forge uri pem ∧ certKeyMatches forge pem keyPem = true

/-- The certificate is the one of the beginning or one that was made, the key has not changed, and
the certificate of the beginning is not lost. -/
structure FilesInv (dir : TlsDir) : Prop where
  cert : ∃ pem, dir.content .nodeCert = some pem.toList ∧ (pem = certPem ∨ IsMade forge uri keyPem pem)
  key : dir.content .nodeKey = some keyPem.toList
  kept : dir.content .nodeCert = some certPem.toList ∨ dir.content .premigrate = some certPem.toList

/-- The certificate has not been replaced. -/
def IsLegacy (dir : TlsDir) : Prop :=
  dir.content .nodeCert = some certPem.toList ∧ ¬ IsCanonical forge uri certPem

def IsArchived (dir : TlsDir) : Prop :=
  IsLegacy forge uri certPem dir ∧ dir.content .premigrate = some certPem.toList

/-- What a bundle says is in the directory. -/
def IsInstalled (dir : TlsDir) (bundle : NodeCertBundle) : Prop :=
  dir.content .nodeCert = some bundle.certPem.toList ∧ IsCanonical forge uri bundle.certPem ∧
    bundle.keyPem = keyPem

def Work.Holds (dir : TlsDir) : Work → Prop
  | rereading | cleaning | releasing none => True
  | keeping cur => dir.content .nodeCert = some cur.toList ∧ IsCanonical forge uri cur
  | signing cur => cur = certPem ∧ IsLegacy forge uri certPem dir
  | archiving cur canonical =>
      cur = certPem ∧ IsLegacy forge uri certPem dir ∧ IsMade forge uri keyPem canonical.certPem
  | copying file position rest canonical =>
      IsLegacy forge uri certPem dir ∧ IsMade forge uri keyPem canonical.certPem ∧
        dir.entry .premigrate = some file ∧ ∃ done, dir.content .premigrate = some done ∧
          done.length = position ∧ done ++ rest = certPem.toList
  | opening canonical =>
      IsArchived forge uri certPem dir ∧ IsMade forge uri keyPem canonical.certPem
  | writing file canonical =>
      IsArchived forge uri certPem dir ∧ IsMade forge uri keyPem canonical.certPem ∧
        dir.entry .tmp = some file ∧ dir.content .tmp = some []
  | syncing canonical | installing canonical =>
      IsArchived forge uri certPem dir ∧ IsMade forge uri keyPem canonical.certPem ∧
        dir.content .tmp = some canonical.certPem.toList
  | releasing (some bundle) => IsInstalled forge uri keyPem dir bundle

/-- What one call of a holder keeps. -/
structure Work.Keeps (dir dir' : TlsDir) (work' : Work) : Prop where
  files : FilesInv forge uri keyPem certPem dir'
  work : work'.Holds forge uri keyPem certPem dir'
  lock : dir'.entry .lock = dir.entry .lock
  /-- A canonical certificate is not replaced. -/
  stays : ∀ pem, dir.content .nodeCert = some pem.toList → IsCanonical forge uri pem →
    dir'.content .nodeCert = some pem.toList

variable {forge uri keyPem certPem} {dir dir' : TlsDir} {work work' : Work}

theorem Work.Keeps.same (hfiles : FilesInv forge uri keyPem certPem dir)
    (hwork : work'.Holds forge uri keyPem certPem dir) :
    Work.Keeps forge uri keyPem certPem dir dir work' :=
  ⟨hfiles, hwork, rfl, fun _ h _ => h⟩

/-- A certificate that is not canonical is the one of the beginning. -/
theorem FilesInv.eq_of_not_canonical (hfiles : FilesInv forge uri keyPem certPem dir) {pem : String}
    (hpem : dir.content .nodeCert = some pem.toList) (h : ¬ IsCanonical forge uri pem) :
    pem = certPem := by
  obtain ⟨pem', hpem', horigin⟩ := hfiles.cert
  obtain rfl : pem' = pem := String.toList_injective (Option.some.inj (hpem'.symm.trans hpem))
  exact horigin.resolve_right fun hmade => h hmade.1

/-- A change of another file, with the archive as it is needed. -/
theorem Work.Keeps.of_content (hfiles : FilesInv forge uri keyPem certPem dir)
    (hwork : work'.Holds forge uri keyPem certPem dir')
    (hlock : dir'.entry .lock = dir.entry .lock)
    (hcert : dir'.content .nodeCert = dir.content .nodeCert)
    (hkey : dir'.content .nodeKey = dir.content .nodeKey)
    (hkept : dir.content .nodeCert = some certPem.toList ∨
      dir'.content .premigrate = dir.content .premigrate) :
    Work.Keeps forge uri keyPem certPem dir dir' work' where
  files := {
    cert := by rw [hcert]; exact hfiles.cert
    key := hkey.trans hfiles.key
    kept := by
      rw [hcert]
      rcases hkept with hstart | hsame
      · exact .inl hstart
      · rw [hsame]
        exact hfiles.kept }
  work := hwork
  lock := hlock
  stays pem hpem _ := hcert.trans hpem

/-! ### The calls of a holder -/

section Calls

variable {args : MigrateArgs} (hforge : forge.Lawful)
  (hspiffe : startsWith args.canonicalSpiffeUri "spiffe://thinklocal/" = true)
  (hne : args.existingKeyPem ≠ "")
  (hfiles : FilesInv forge args.canonicalSpiffeUri args.existingKeyPem certPem dir)

include hfiles

theorem Work.keeps_throws (h : work.advance forge args dir .throws = some (dir', work')) :
    Work.Keeps forge args.canonicalSpiffeUri args.existingKeyPem certPem dir dir' work' := by
  cases work with
  | releasing result => cases h
  | _ =>
      obtain ⟨rfl, rfl⟩ := Prod.mk.inj (Option.some.inj h)
      exact .same hfiles trivial

theorem Work.keeps_rereading
    (h : rereading.advance forge args dir .proceeds = some (dir', work')) :
    Work.Keeps forge args.canonicalSpiffeUri args.existingKeyPem certPem dir dir' work' := by
  obtain ⟨pem, hpem, -⟩ := hfiles.cert
  simp only [Work.advance, hpem, String.ofList_toList] at h
  split at h
  · next hcanonical =>
      obtain ⟨rfl, rfl⟩ := Prod.mk.inj (Option.some.inj h)
      exact .same hfiles ⟨hpem, hcanonical⟩
  · next hlegacy =>
      obtain ⟨rfl, rfl⟩ := Prod.mk.inj (Option.some.inj h)
      obtain rfl := hfiles.eq_of_not_canonical hpem hlegacy
      exact .same hfiles ⟨rfl, hpem, hlegacy⟩

theorem Work.keeps_keeping {cur : String}
    (hwork : (keeping cur).Holds forge args.canonicalSpiffeUri args.existingKeyPem certPem dir)
    (h : (keeping cur).advance forge args dir .proceeds = some (dir', work')) :
    Work.Keeps forge args.canonicalSpiffeUri args.existingKeyPem certPem dir dir' work' := by
  simp only [Work.advance, hfiles.key, Option.map_some, String.ofList_toList] at h
  obtain ⟨rfl, rfl⟩ := Prod.mk.inj (Option.some.inj h)
  exact .same hfiles ⟨hwork.1, hwork.2, rfl⟩

include hforge hspiffe hne in
theorem Work.keeps_signing {cur : String} {now : ℤ} {draw : Draw forge.PrivateKey}
    (hwork : (signing cur).Holds forge args.canonicalSpiffeUri args.existingKeyPem certPem dir)
    (h : (signing cur).advance forge args dir (.signs now draw) = some (dir', work')) :
    Work.Keeps forge args.canonicalSpiffeUri args.existingKeyPem certPem dir dir' work' := by
  simp only [Work.advance] at h
  split at h
  · obtain ⟨rfl, rfl⟩ := Prod.mk.inj (Option.some.inj h)
    exact .same hfiles trivial
  · next canonical hcreate =>
      obtain ⟨rfl, rfl⟩ := Prod.mk.inj (Option.some.inj h)
      have hmade : IsMade forge args.canonicalSpiffeUri args.existingKeyPem canonical.certPem :=
        ⟨spiffeUri_mem_createNodeCert hforge hspiffe hcreate,
          (certKeyMatches_createNodeCert hforge hne hcreate).2⟩
      exact .same hfiles ⟨hwork.1, hwork.2, hmade⟩

theorem Work.keeps_archiving {cur : String} {canonical : NodeCertBundle}
    (hwork : (archiving cur canonical).Holds forge args.canonicalSpiffeUri args.existingKeyPem
      certPem dir)
    (h : (archiving cur canonical).advance forge args dir .proceeds = some (dir', work')) :
    Work.Keeps forge args.canonicalSpiffeUri args.existingKeyPem certPem dir dir' work' := by
  obtain ⟨rfl, hlegacy, hmade⟩ := hwork
  obtain ⟨rfl, rfl⟩ := Prod.mk.inj (Option.some.inj h)
  have hcontent : ∀ name ≠ TlsFile.premigrate, (dir.openTruncated .premigrate).2.content name =
      dir.content name := fun name hname =>
    Directory.content_openTruncated.trans (if_neg hname)
  have hcert := hcontent .nodeCert (by decide)
  have hlock : (dir.openTruncated .premigrate).2.entry .lock = dir.entry .lock :=
    Directory.entry_openTruncated.trans (if_neg (by decide))
  have hfile : (dir.openTruncated .premigrate).2.entry .premigrate =
      some (dir.openTruncated .premigrate).1 := Directory.entry_openTruncated.trans (if_pos rfl)
  have hempty : (dir.openTruncated .premigrate).2.content .premigrate = some [] :=
    Directory.content_openTruncated.trans (if_pos rfl)
  exact .of_content hfiles
    ⟨⟨hcert.trans hlegacy.1, hlegacy.2⟩, hmade, hfile, [], hempty, rfl, rfl⟩
    hlock hcert (hcontent .nodeKey (by decide)) (.inl hlegacy.1)

theorem Work.keeps_copying {file position count : ℕ} {rest : List Char} {canonical : NodeCertBundle}
    (hwork : (copying file position rest canonical).Holds forge args.canonicalSpiffeUri
      args.existingKeyPem certPem dir)
    (h : (copying file position rest canonical).advance forge args dir (.writes count) =
      some (dir', work')) :
    Work.Keeps forge args.canonicalSpiffeUri args.existingKeyPem certPem dir dir' work' := by
  obtain ⟨hlegacy, hmade, hfile, done, hdone, rfl, hcopy⟩ := hwork
  simp only [Work.advance] at h
  split at h
  · next hcount =>
      obtain ⟨rfl, rfl⟩ := Prod.mk.inj (Option.some.inj h)
      have hcontent : ∀ name, (dir.write '\x00' file done.length (rest.take count)).content name =
          if name = .premigrate then some (done ++ rest.take count) else dir.content name :=
        fun name => Directory.content_write hfile hdone
      have hcert := (hcontent .nodeCert).trans (if_neg (by decide))
      have hkey := (hcontent .nodeKey).trans (if_neg (by decide))
      have hpremigrate := (hcontent .premigrate).trans (if_pos rfl)
      have hlength : (done ++ rest.take count).length = done.length + count := by
        rw [List.length_append, List.length_take_of_le hcount]
      have hrest : done ++ rest.take count ++ rest.drop count = certPem.toList := by
        rw [List.append_assoc, List.take_append_drop, hcopy]
      exact .of_content hfiles ⟨⟨hcert.trans hlegacy.1, hlegacy.2⟩, hmade, hfile, _, hpremigrate,
        hlength, hrest⟩ rfl hcert hkey (.inl hlegacy.1)
  · cases h

theorem Work.keeps_opening {canonical : NodeCertBundle}
    (hwork : (opening canonical).Holds forge args.canonicalSpiffeUri args.existingKeyPem certPem dir)
    (h : (opening canonical).advance forge args dir .proceeds = some (dir', work')) :
    Work.Keeps forge args.canonicalSpiffeUri args.existingKeyPem certPem dir dir' work' := by
  obtain ⟨harchived, hmade⟩ := hwork
  obtain ⟨rfl, rfl⟩ := Prod.mk.inj (Option.some.inj h)
  have hcontent : ∀ name ≠ TlsFile.tmp, (dir.openTruncated .tmp).2.content name =
      dir.content name := fun name hname =>
    Directory.content_openTruncated.trans (if_neg hname)
  have hlock : (dir.openTruncated .tmp).2.entry .lock = dir.entry .lock :=
    Directory.entry_openTruncated.trans (if_neg (by decide))
  have hfile : (dir.openTruncated .tmp).2.entry .tmp = some (dir.openTruncated .tmp).1 :=
    Directory.entry_openTruncated.trans (if_pos rfl)
  have hempty : (dir.openTruncated .tmp).2.content .tmp = some [] :=
    Directory.content_openTruncated.trans (if_pos rfl)
  have hcert := hcontent .nodeCert (by decide)
  have hpremigrate := hcontent .premigrate (by decide)
  exact .of_content hfiles
    ⟨⟨⟨hcert.trans harchived.1.1, harchived.1.2⟩, hpremigrate.trans harchived.2⟩, hmade, hfile, hempty⟩
    hlock hcert (hcontent .nodeKey (by decide)) (.inr hpremigrate)

theorem Work.keeps_writing {file : ℕ} {canonical : NodeCertBundle}
    (hwork : (writing file canonical).Holds forge args.canonicalSpiffeUri args.existingKeyPem
      certPem dir)
    (h : (writing file canonical).advance forge args dir (.writes canonical.certPem.length) =
      some (dir', work')) :
    Work.Keeps forge args.canonicalSpiffeUri args.existingKeyPem certPem dir dir' work' := by
  obtain ⟨harchived, hmade, hfile, hempty⟩ := hwork
  simp only [Work.advance, le_refl, if_true, ← String.length_toList, List.take_length] at h
  obtain ⟨rfl, rfl⟩ := Prod.mk.inj (Option.some.inj h)
  have hcontent : ∀ name,
      (dir.write '\x00' file ([] : List Char).length canonical.certPem.toList).content name =
        if name = .tmp then some canonical.certPem.toList else dir.content name :=
    fun name => Directory.content_write hfile hempty
  have hcert := (hcontent .nodeCert).trans (if_neg (by decide))
  have hkey := (hcontent .nodeKey).trans (if_neg (by decide))
  have hpremigrate := (hcontent .premigrate).trans (if_neg (by decide))
  have htmp := (hcontent .tmp).trans (if_pos rfl)
  exact .of_content hfiles ⟨⟨⟨hcert.trans harchived.1.1, harchived.1.2⟩,
    hpremigrate.trans harchived.2⟩, hmade, htmp⟩ rfl hcert hkey (.inr hpremigrate)

theorem Work.keeps_installing {canonical : NodeCertBundle}
    (hwork : (installing canonical).Holds forge args.canonicalSpiffeUri args.existingKeyPem
      certPem dir)
    (h : (installing canonical).advance forge args dir .proceeds = some (dir', work')) :
    Work.Keeps forge args.canonicalSpiffeUri args.existingKeyPem certPem dir dir' work' := by
  obtain ⟨harchived, hmade, htmp⟩ := hwork
  simp only [Work.advance] at h
  split at h
  · obtain ⟨rfl, rfl⟩ := Prod.mk.inj (Option.some.inj h)
    exact .same hfiles trivial
  · next renamed hrename =>
      obtain ⟨rfl, rfl⟩ := Prod.mk.inj (Option.some.inj h)
      obtain rfl := Directory.rename_eq_some hrename
      have hcert : (dir.move .tmp .nodeCert).content .nodeCert =
          some canonical.certPem.toList := Directory.content_move.trans htmp
      exact {
        files := ⟨⟨_, hcert, .inr hmade⟩, Directory.content_move.trans hfiles.key,
          .inr (Directory.content_move.trans harchived.2)⟩
        work := ⟨hcert, hmade.1, rfl⟩
        lock := rfl
        stays := by
          intro pem hpem hcanonical
          -- what is replaced is the legacy certificate
          rw [harchived.1.1] at hpem
          obtain rfl := String.toList_injective (Option.some.inj hpem)
          exact absurd hcanonical harchived.1.2 }

theorem Work.keeps_cleaning (h : cleaning.advance forge args dir .proceeds = some (dir', work')) :
    Work.Keeps forge args.canonicalSpiffeUri args.existingKeyPem certPem dir dir' work' := by
  obtain ⟨rfl, rfl⟩ := Prod.mk.inj (Option.some.inj h)
  cases hunlink : dir.unlink .tmp with
  | none => exact .same hfiles trivial
  | some removed =>
      obtain rfl := Directory.unlink_eq_some hunlink
      exact .of_content hfiles trivial rfl Directory.content_remove Directory.content_remove
        (.inr Directory.content_remove)

include hforge hspiffe hne in
/-- One call of a holder. -/
theorem Work.keeps_advance {event : CallEvent forge.PrivateKey}
    (hwhole : ∀ file canonical count, work = .writing file canonical → event = .writes count →
      count = canonical.certPem.length)
    (hwork : work.Holds forge args.canonicalSpiffeUri args.existingKeyPem certPem dir)
    (h : work.advance forge args dir event = some (dir', work')) :
    Work.Keeps forge args.canonicalSpiffeUri args.existingKeyPem certPem dir dir' work' := by
  cases event with
  | throws => exact keeps_throws hfiles h
  | signs now draw =>
      cases work with
      | signing cur => exact keeps_signing hforge hspiffe hne hfiles hwork h
      | _ => cases h
  | writes count =>
      cases work with
      | copying file position rest canonical => exact keeps_copying hfiles hwork h
      | writing file canonical =>
          -- the new certificate is written in one piece by the condition
          obtain rfl := hwhole file canonical count rfl rfl
          exact keeps_writing hfiles hwork h
      | _ => cases h
  | proceeds =>
      cases work with
      | rereading => exact keeps_rereading hfiles h
      | keeping cur => exact keeps_keeping hfiles hwork h
      | archiving cur canonical => exact keeps_archiving hfiles hwork h
      | copying file position rest canonical =>
          cases rest with
          | nil =>
              -- the copy is complete
              obtain ⟨hlegacy, hmade, -, done, hdone, -, hcopy⟩ := hwork
              obtain ⟨rfl, rfl⟩ := Prod.mk.inj (Option.some.inj h)
              rw [List.append_nil] at hcopy
              subst hcopy
              exact .same hfiles ⟨⟨hlegacy, hdone⟩, hmade⟩
          | cons _ _ => cases h
      | opening canonical => exact keeps_opening hfiles hwork h
      | syncing canonical =>
          obtain ⟨rfl, rfl⟩ := Prod.mk.inj (Option.some.inj h)
          exact .same hfiles hwork
      | installing canonical => exact keeps_installing hfiles hwork h
      | cleaning => exact keeps_cleaning hfiles h
      | _ => cases h
  | _ => cases work <;> cases h

end Calls

/-! ## What the lock does not touch -/

/-- The directories differ at most in the lock. -/
def SameFiles (dir dir' : TlsDir) : Prop :=
  ∀ name ≠ TlsFile.lock, dir'.content name = dir.content name ∧ dir'.entry name = dir.entry name

theorem sameFiles_refl (dir : TlsDir) : SameFiles dir dir := fun _ _ => ⟨rfl, rfl⟩

theorem sameFiles_create (dir : TlsDir) : SameFiles dir (dir.create .lock) := fun _ hname =>
  ⟨Directory.content_create.trans (if_neg hname), Directory.entry_create.trans (if_neg hname)⟩

theorem sameFiles_remove (dir : TlsDir) : SameFiles dir (dir.remove .lock) := fun _ hname =>
  ⟨Directory.content_remove.trans (if_neg hname), Directory.entry_remove.trans (if_neg hname)⟩

theorem FilesInv.congr (hsame : SameFiles dir dir')
    (h : FilesInv forge uri keyPem certPem dir) : FilesInv forge uri keyPem certPem dir' where
  cert := by
    rw [(hsame .nodeCert (by decide)).1]
    exact h.cert
  key := by
    rw [(hsame .nodeKey (by decide)).1]
    exact h.key
  kept := by
    rw [(hsame .nodeCert (by decide)).1, (hsame .premigrate (by decide)).1]
    exact h.kept

theorem IsInstalled.congr (hsame : SameFiles dir dir') {bundle : NodeCertBundle}
    (h : IsInstalled forge uri keyPem dir bundle) : IsInstalled forge uri keyPem dir' bundle :=
  ⟨(hsame .nodeCert (by decide)).1.trans h.1, h.2⟩

end Holder

/-! ## One call of a process -/

section Processes

variable {forge : CertForge} {args : MigrateArgs} {dir dir' : TlsDir} {phase phase' : Phase}
  {event : CallEvent forge.PrivateKey}

/-- A process without the lock that has not migrated. -/
def Phase.Idle : Phase → Prop
  | holding _ _ | returned (some _) => False
  | _ => True

/-- What a call can do, and at which of them. -/
inductive Phase.Step (forge : CertForge) (args : MigrateArgs) (dir : TlsDir)
    (event : CallEvent forge.PrivateKey) : Phase → TlsDir → Phase → Prop
  | idles {phase phase' : Phase} (hidle : phase'.Idle) : Step forge args dir event phase dir phase'
  | acquires (hfree : dir.entry .lock = none) :
      Step forge args dir event .creating (dir.create .lock) (.holding dir.files.next .rereading)
  | steals (hevent : event = .proceeds) :
      Step forge args dir event .stealing (dir.remove .lock) .creating
  | releases {lock : ℕ} {result : Option NodeCertBundle} {dir' : TlsDir}
      (hdir : dir' = dir.remove .lock ∨ dir' = dir) :
      Step forge args dir event (.holding lock (.releasing result)) dir' (.returned result)
  | works {lock : ℕ} {work work' : Work} {dir' : TlsDir}
      (hwork : work.advance forge args dir event = some (dir', work')) :
      Step forge args dir event (.holding lock work) dir' (.holding lock work')

theorem Phase.advance_holding {lock : ℕ} {work : Work} (hwork : ∀ result, work ≠ .releasing result)
    (hdies : event ≠ .dies) :
    (holding lock work).advance forge args dir event =
      (work.advance forge args dir event).map fun (next, work') => (next, holding lock work') := by
  cases work with
  | releasing result => exact absurd rfl (hwork result)
  | _ => cases event <;> first | rfl | exact absurd rfl hdies

theorem Phase.step_of_advance (h : phase.advance forge args dir event = some (dir', phase')) :
    Phase.Step forge args dir event phase dir' phase' := by
  cases phase with
  | returned result => cases h
  | crashed => cases h
  | creating =>
      cases event with
      | proceeds =>
          simp only [Phase.advance] at h
          split at h
          · next lock locked hopen =>
              obtain ⟨hfree, rfl, rfl⟩ := Directory.openExclusive_eq_some hopen
              obtain ⟨rfl, rfl⟩ := Prod.mk.inj (Option.some.inj h)
              exact .acquires hfree
          · obtain ⟨rfl, rfl⟩ := Prod.mk.inj (Option.some.inj h)
            exact .idles trivial
      | throws | dies =>
          obtain ⟨rfl, rfl⟩ := Prod.mk.inj (Option.some.inj h)
          exact .idles trivial
      | _ => cases h
  | looking =>
      cases event with
      | looks stale late =>
          simp only [Phase.advance] at h
          split_ifs at h <;>
            · obtain ⟨rfl, rfl⟩ := Prod.mk.inj (Option.some.inj h)
              exact .idles trivial
      | throws | dies =>
          obtain ⟨rfl, rfl⟩ := Prod.mk.inj (Option.some.inj h)
          exact .idles trivial
      | _ => cases h
  | stealing =>
      cases event with
      | proceeds =>
          obtain ⟨hdir, rfl⟩ := Prod.mk.inj (Option.some.inj h)
          have hunlink : (dir.unlink .lock).getD dir = dir.remove .lock ∨ _ := Directory.getD_unlink
          -- another process may have removed the lock already
          rcases hunlink with heq | heq
          · obtain rfl := heq.symm.trans hdir
            exact .steals rfl
          · obtain rfl := heq.symm.trans hdir
            exact .idles trivial
      | throws | dies =>
          obtain ⟨rfl, rfl⟩ := Prod.mk.inj (Option.some.inj h)
          exact .idles trivial
      | _ => cases h
  | holding lock work =>
      by_cases hdies : event = .dies
      · subst hdies
        obtain ⟨rfl, rfl⟩ := Prod.mk.inj (Option.some.inj h)
        exact .idles trivial
      -- the release answers by itself, all other work through its own step
      by_cases hwork : ∃ result, work = .releasing result
      · obtain ⟨result, rfl⟩ := hwork
        cases event with
        | proceeds =>
            obtain ⟨rfl, rfl⟩ := Prod.mk.inj (Option.some.inj h)
            exact .releases Directory.getD_unlink
        | throws =>
            obtain ⟨rfl, rfl⟩ := Prod.mk.inj (Option.some.inj h)
            exact .releases (.inr rfl)
        | dies => exact absurd rfl hdies
        | _ => cases h
      · rw [Phase.advance_holding (not_exists.mp hwork) hdies] at h
        obtain ⟨⟨next, work'⟩, hadvance, hpair⟩ := Option.map_eq_some_iff.mp h
        obtain ⟨rfl, rfl⟩ := Prod.mk.inj hpair
        exact .works hadvance

end Processes

/-! ## All processes -/

section System

variable {forge : CertForge} (forge) (uri keyPem certPem : String) {P : Type}

structure Migration.Inv (s : Migration P) : Prop where
  files : FilesInv forge uri keyPem certPem s.dir
  locked : ∀ {p lock work}, s.phase p = .holding lock work → s.dir.entry .lock = some lock
  alone : ∀ {p q lock work lock' work'}, s.phase p = .holding lock work →
    s.phase q = .holding lock' work' → p = q
  working : ∀ {p lock work}, s.phase p = .holding lock work →
    work.Holds forge uri keyPem certPem s.dir
  returned : ∀ {p bundle}, s.phase p = .returned (some bundle) →
    IsInstalled forge uri keyPem s.dir bundle

/-- What a step keeps besides the invariant. -/
def Stays (dir dir' : TlsDir) : Prop :=
  ∀ pem, dir.content .nodeCert = some pem.toList → IsCanonical forge uri pem →
    dir'.content .nodeCert = some pem.toList

variable {forge uri keyPem certPem} {s : Migration P} {p : P} {dir : TlsDir} {phase : Phase}

theorem stays_of_sameFiles (hsame : SameFiles s.dir dir) : Stays forge uri s.dir dir :=
  fun _ hpem _ => (hsame .nodeCert (by decide)).1.trans hpem

theorem IsInstalled.of_stays {dir' : TlsDir} {bundle : NodeCertBundle}
    (h : IsInstalled forge uri keyPem dir bundle) (hstays : Stays forge uri dir dir') :
    IsInstalled forge uri keyPem dir' bundle :=
  ⟨hstays _ h.1 h.2.1, h.2⟩

variable [DecidableEq P]

/-- The phases after a step in which one process has got into another phase. -/
theorem update_eq_cases {q : P} {found : Phase} (h : Function.update s.phase p phase q = found) :
    q = p ∧ phase = found ∨ q ≠ p ∧ s.phase q = found := by
  by_cases hq : q = p
  · subst hq
    rw [Function.update_self] at h
    exact .inl ⟨rfl, h⟩
  · rw [Function.update_of_ne hq] at h
    exact .inr ⟨hq, h⟩

/-- A process gives up its place, or never had one. -/
theorem Migration.Inv.of_idle (hinv : s.Inv forge uri keyPem certPem) (hidle : phase.Idle) :
    Migration.Inv forge uri keyPem certPem ⟨s.dir, Function.update s.phase p phase⟩ := by
  have hother : ∀ {q lock work}, Function.update s.phase p phase q = .holding lock work →
      s.phase q = .holding lock work := by
    intro q lock work hq
    rcases update_eq_cases hq with ⟨-, rfl⟩ | ⟨-, hq⟩
    · cases hidle
    · exact hq
  exact {
    files := hinv.files
    locked := fun hq => hinv.locked (hother hq)
    alone := fun hq hq' => hinv.alone (hother hq) (hother hq')
    working := fun hq => hinv.working (hother hq)
    returned := by
      intro q bundle hq
      rcases update_eq_cases hq with ⟨-, rfl⟩ | ⟨-, hq⟩
      · cases hidle
      · exact hinv.returned hq }

/-- The lock is taken where nobody holds one. -/
theorem Migration.Inv.of_acquires (hinv : s.Inv forge uri keyPem certPem)
    (hfree : s.dir.entry .lock = none) :
    Migration.Inv forge uri keyPem certPem ⟨s.dir.create .lock,
      Function.update s.phase p (.holding s.dir.files.next .rereading)⟩ := by
  have hsame := sameFiles_create s.dir
  -- a holder before would have its lock in the directory
  have honly : ∀ {q lock work},
      Function.update s.phase p (.holding s.dir.files.next .rereading) q = .holding lock work →
        q = p ∧ lock = s.dir.files.next ∧ work = .rereading := by
    intro q lock work hq
    rcases update_eq_cases hq with ⟨rfl, heq⟩ | ⟨-, hq⟩
    · cases heq
      exact ⟨rfl, rfl, rfl⟩
    · have hlocked := hinv.locked hq
      rw [hfree] at hlocked
      cases hlocked
  exact {
    files := hinv.files.congr hsame
    locked := by
      intro q lock work hq
      obtain ⟨-, rfl, -⟩ := honly hq
      exact Directory.entry_create
    alone := fun hq hq' => (honly hq).1.trans (honly hq').1.symm
    working := by
      intro q lock work hq
      obtain ⟨-, -, rfl⟩ := honly hq
      exact trivial
    returned := by
      intro q bundle hq
      rcases update_eq_cases hq with ⟨-, heq⟩ | ⟨-, hq⟩
      · cases heq
      · exact (hinv.returned hq).congr hsame }

/-- The lock goes when nobody holds one any more. -/
theorem Migration.Inv.of_unlocked (hinv : s.Inv forge uri keyPem certPem)
    (hsame : SameFiles s.dir dir)
    (hnone : ∀ {q lock work}, Function.update s.phase p phase q ≠ .holding lock work)
    (hphase : ∀ bundle, phase = .returned (some bundle) →
      IsInstalled forge uri keyPem s.dir bundle) :
    Migration.Inv forge uri keyPem certPem ⟨dir, Function.update s.phase p phase⟩ where
  files := hinv.files.congr hsame
  locked hq := absurd hq hnone
  alone hq := absurd hq hnone
  working hq := absurd hq hnone
  returned := by
    intro q bundle hq
    rcases update_eq_cases hq with ⟨-, heq⟩ | ⟨-, hq⟩
    · exact (hphase bundle heq).congr hsame
    · exact (hinv.returned hq).congr hsame

theorem Migration.Inv.of_works {lock : ℕ} {work work' : Work}
    (hinv : s.Inv forge uri keyPem certPem) (hp : s.phase p = .holding lock work)
    (hkeeps : Work.Keeps forge uri keyPem certPem s.dir dir work') :
    Migration.Inv forge uri keyPem certPem
      ⟨dir, Function.update s.phase p (.holding lock work')⟩ := by
  have honly : ∀ {q lock' work''},
      Function.update s.phase p (.holding lock work') q = .holding lock' work'' →
        q = p ∧ lock' = lock ∧ work'' = work' := by
    intro q lock' work'' hq
    rcases update_eq_cases hq with ⟨rfl, heq⟩ | ⟨hne, hq⟩
    · cases heq
      exact ⟨rfl, rfl, rfl⟩
    · exact absurd (hinv.alone hq hp) hne
  exact {
    files := hkeeps.files
    locked := by
      intro q lock' work'' hq
      obtain ⟨-, rfl, -⟩ := honly hq
      exact hkeeps.lock.trans (hinv.locked hp)
    alone := fun hq hq' => (honly hq).1.trans (honly hq').1.symm
    working := by
      intro q lock' work'' hq
      obtain ⟨-, -, rfl⟩ := honly hq
      exact hkeeps.work
    returned := by
      intro q bundle hq
      rcases update_eq_cases hq with ⟨-, heq⟩ | ⟨-, hq⟩
      · cases heq
      · exact (hinv.returned hq).of_stays hkeeps.stays }

variable {args : P → MigrateArgs} {start : TlsDir}

/-- All processes run for one identity and one key. -/
structure SameNode (args : P → MigrateArgs) (uri keyPem : String) : Prop where
  canonicalSpiffeUri : ∀ p, (args p).canonicalSpiffeUri = uri
  existingKeyPem : ∀ p, (args p).existingKeyPem = keyPem

theorem migration_step (hforge : forge.Lawful) (hsame : SameNode args uri keyPem)
    (hspiffe : startsWith uri "spiffe://thinklocal/" = true) (hne : keyPem ≠ "")
    {a : P × CallEvent forge.PrivateKey} {s' : Migration P}
    (hinv : s.Inv forge uri keyPem certPem) (horderly : Orderly forge s a)
    (h : (migration forge args start).step s a = some s') :
    s'.Inv forge uri keyPem certPem ∧ Stays forge uri s.dir s'.dir := by
  obtain ⟨p, event⟩ := a
  obtain ⟨⟨dir, phase⟩, hadvance, rfl⟩ := Option.map_eq_some_iff.mp h
  have hstep := Phase.step_of_advance hadvance
  generalize hp : s.phase p = found at hstep
  cases hstep with
  | idles hidle => exact ⟨hinv.of_idle hidle, fun _ hpem _ => hpem⟩
  | acquires hfree =>
      exact ⟨hinv.of_acquires hfree, stays_of_sameFiles (sameFiles_create _)⟩
  | steals hevent =>
      have hsteal := sameFiles_remove s.dir
      refine ⟨hinv.of_unlocked hsteal ?_ (fun _ heq => nomatch heq), stays_of_sameFiles hsteal⟩
      intro q lock work hq
      rcases update_eq_cases hq with ⟨-, heq⟩ | ⟨-, hq⟩
      · cases heq
      · -- the lock that is removed has no holder that still works
        exact horderly.abandoned hp hevent q lock work hq (hinv.locked hq)
  | @releases lock result dir hdir =>
      have hreleased : SameFiles s.dir dir := by
        rcases hdir with rfl | rfl
        · exact sameFiles_remove s.dir
        · exact sameFiles_refl s.dir
      refine ⟨hinv.of_unlocked hreleased ?_ ?_, stays_of_sameFiles hreleased⟩
      · intro q lock' work hq
        rcases update_eq_cases hq with ⟨-, heq⟩ | ⟨hother, hq⟩
        · cases heq
        · -- two holders would be the same process
          exact hother (hinv.alone hq hp)
      · intro bundle heq
        cases heq
        exact hinv.working hp
  | @works lock work work' dir hwork =>
      obtain ⟨rfl, rfl⟩ : (args p).canonicalSpiffeUri = uri ∧ (args p).existingKeyPem = keyPem :=
        ⟨hsame.canonicalSpiffeUri p, hsame.existingKeyPem p⟩
      have hkeeps := Work.keeps_advance hforge hspiffe hne hinv.files
        (fun file canonical count hw he =>
          horderly.whole lock file canonical count (hp.trans (congrArg _ hw)) he)
        (hinv.working hp) hwork
      exact ⟨hinv.of_works hp hkeeps, hkeeps.stays⟩

/-- The directory that the processes find. -/
structure Found (forge : CertForge) (certPem keyPem : String) (start : TlsDir) : Prop where
  cert : start.content .nodeCert = some certPem.toList
  key : start.content .nodeKey = some keyPem.toList
  pair : certKeyMatches forge certPem keyPem = true

theorem migration_inv (hforge : forge.Lawful) (hsame : SameNode args uri keyPem)
    (hspiffe : startsWith uri "spiffe://thinklocal/" = true)
    (hfound : Found forge certPem keyPem start)
    (hs : (migration forge args start).ReachableUnder (Orderly forge) s) :
    s.Inv forge uri keyPem certPem := by
  have hne := keyPem_ne_of_matches hforge hfound.pair
  refine hs.invariant ?_ fun s a s' hinv horderly hstep =>
    (migration_step hforge hsame hspiffe hne hinv horderly hstep).1
  exact {
    files := ⟨⟨certPem, hfound.cert, .inl rfl⟩, hfound.key, .inl hfound.cert⟩
    locked := fun hp => nomatch hp
    alone := fun hp => nomatch hp
    working := fun hp => nomatch hp
    returned := fun hp => nomatch hp }

/-- What holds of the directory and the processes at every moment. -/
structure Migration.Safe (forge : CertForge) (certPem keyPem : String) (s : Migration P) : Prop where
  /-- The certificate is complete and fits the key, which does not change. -/
  pair : ∃ pem, s.dir.content .nodeCert = some pem.toList ∧
    certKeyMatches forge pem keyPem = true ∧ s.dir.content .nodeKey = some keyPem.toList
  /-- The first certificate is in place or archived. -/
  kept : s.dir.content .nodeCert = some certPem.toList ∨
    s.dir.content .premigrate = some certPem.toList
  /-- There is one holder, and the lock that it is going to release is its own. -/
  exclusive : ∀ p lock work, s.phase p = .holding lock work → s.dir.entry .lock = some lock ∧
    ∀ q lock' work', s.phase q = .holding lock' work' → q = p
  /-- What has been returned is still installed. -/
  returned : ∀ p bundle, s.phase p = .returned (some bundle) →
    s.dir.content .nodeCert = some bundle.certPem.toList ∧ bundle.keyPem = keyPem

/-- As long as only abandoned locks are stolen, the certificate fits the key at every moment, is
not lost, and is not replaced once it is canonical. -/
theorem migration_safe (hforge : forge.Lawful) (hsame : SameNode args uri keyPem)
    (hspiffe : startsWith uri "spiffe://thinklocal/" = true)
    (hfound : Found forge certPem keyPem start)
    (hs : (migration forge args start).ReachableUnder (Orderly forge) s) :
    s.Safe forge certPem keyPem ∧
      ∀ a s', Orderly forge s a → (migration forge args start).step s a = some s' →
        ∀ pem, s.dir.content .nodeCert = some pem.toList → uri ∈ extractSpiffeUris forge pem →
          s'.dir.content .nodeCert = some pem.toList := by
  have hinv := migration_inv hforge hsame hspiffe hfound hs
  constructor
  · exact {
      pair := by
        obtain ⟨pem, hpem, horigin⟩ := hinv.files.cert
        refine ⟨pem, hpem, ?_, hinv.files.key⟩
        rcases horigin with rfl | hmade
        · exact hfound.pair
        · exact hmade.2
      kept := hinv.files.kept
      exclusive := fun p lock work hp => ⟨hinv.locked hp, fun q _ _ hq => hinv.alone hq hp⟩
      returned := fun p bundle hp => ⟨(hinv.returned hp).1, (hinv.returned hp).2.2⟩ }
  · intro a s' horderly hstep
    have hne := keyPem_ne_of_matches hforge hfound.pair
    exact (migration_step hforge hsame hspiffe hne hinv horderly hstep).2

end System

/-! ## Runs -/

/-- The certificate that is made in the runs below. -/
def canonicalTemplate : CertTemplate Unit where
  publicKey := ()
  serialNumber := "02"
  notBefore := 0
  notAfter := 90 * 86400000
  commonName := "host"
  cA := false
  keyUsage := ["digitalSignature", "keyEncipherment"]
  extKeyUsage := ["serverAuth", "clientAuth"]
  altNames := some [⟨2, "host"⟩, ⟨2, "localhost"⟩, ⟨6, "spiffe://thinklocal/node/id"⟩]

def legacyTemplate : CertTemplate Unit :=
  { canonicalTemplate with
    serialNumber := "01"
    altNames := some [⟨2, "host"⟩, ⟨2, "localhost"⟩, ⟨6, "spiffe://thinklocal/host/id"⟩] }

def authorityTemplate : CertTemplate Unit :=
  { canonicalTemplate with
    serialNumber := "00", cA := true, keyUsage := ["keyCertSign", "cRLSign"], extKeyUsage := []
    altNames := none }

/-- One key, which signs one certificate. -/
def migrationForge : CertForge where
  Certificate := CertTemplate Unit
  certificateFromPem pem :=
    if pem = "ca" then some authorityTemplate
    else if pem = "legacy" then some legacyTemplate
    else if pem = "canonical" then some canonicalTemplate
    else none
  notBefore := CertTemplate.notBefore
  notAfter := CertTemplate.notAfter
  basicConstraints cert := some ⟨cert.cA, none⟩
  verify _ _ := some true
  verifyCertificateChain _ _ _ := some true
  PublicKey := Unit
  decEq := inferInstance
  PrivateKey := Unit
  publicKey := CertTemplate.publicKey
  publicOf := id
  privateKeyFromPem pem := if pem = "key" then some () else none
  privateKeyToPem _ := "key"
  commonName cert := some cert.commonName
  altNames := CertTemplate.altNames
  signedPem _ _ t := if t = canonicalTemplate then some "canonical" else none
  addDays now days := now + days * 86400000

theorem migrationForge_lawful : migrationForge.Lawful where
  reads {issuer key t pem} h := by
    obtain ⟨rfl, hpem⟩ := Option.ite_none_right_eq_some.mp h
    obtain rfl := Option.some.inj hpem
    exact ⟨canonicalTemplate, rfl, rfl, rfl, rfl, by decide, by decide, by decide, by decide⟩
  readsKey _ := rfl
  readsNothing := rfl
  verifies _ _ _ := rfl
  addDays now days := by
    dsimp only [migrationForge]
    omega

def migrationArgs : MigrateArgs where
  ca := ⟨"ca", "key"⟩
  hostname := "host"
  canonicalSpiffeUri := "spiffe://thinklocal/node/id"
  localIps := []
  existingKeyPem := "key"

/-- A directory with a certificate and its key. -/
def legacyDir : TlsDir :=
  let cert := (Directory.empty.create .nodeCert).write '\x00' 0 0 "legacy".toList
  (cert.create .nodeKey).write '\x00' 1 0 "key".toList

/-- The calls of a migration until the certificate is installed. -/
def untilInstalled : List (CallEvent Unit) :=
  [.proceeds, .proceeds, .signs 0 ⟨"02", ()⟩, .proceeds, .writes 6, .proceeds, .proceeds, .writes 9,
    .proceeds]

theorem legacyDir_found : Found migrationForge "legacy" "key" legacyDir where
  cert := by decide
  key := by decide
  pair := by decide

/-- The process holds the lock of the directory. -/
def holdsLock (s : Migration Bool) (p : Bool) : Bool :=
  match s.phase p with
  | .holding lock _ => s.dir.entry .lock = some lock
  | _ => false

/-- A test for the steps of two processes. -/
def isOrderly (s : Migration Bool) (a : Bool × CallEvent Unit) : Bool :=
  match s.phase a.1, a.2 with
  | .stealing, .proceeds => ! holdsLock s true && ! holdsLock s false
  | .holding _ (.writing _ canonical), .writes count => count = canonical.certPem.length
  | _, _ => true

theorem orderly_of_isOrderly {s : Migration Bool} {a : Bool × CallEvent Unit}
    (h : isOrderly s a = true) : Orderly migrationForge s a where
  abandoned hsteals hproceeds q lock work hq hlock := by
    simp only [isOrderly, hsteals, hproceeds, Bool.and_eq_true, Bool.not_eq_true'] at h
    have hheld : holdsLock s q = true := by
      rw [holdsLock, hq]
      exact decide_eq_true hlock
    cases q with
    | true => exact absurd (hheld.symm.trans h.1) (by decide)
    | false => exact absurd (hheld.symm.trans h.2) (by decide)
  whole lock file canonical count hwriting hwrites := by
    unfold isOrderly at h
    rw [hwriting, hwrites] at h
    exact of_decide_eq_true h

/-- The first process dies with its lock, which the second one steals. -/
def abandonedRun : List (Bool × CallEvent Unit) :=
  [(true, .proceeds), (true, .dies), (false, .proceeds), (false, .looks true false),
      (false, .proceeds)] ++
    (untilInstalled ++ [CallEvent.proceeds, CallEvent.proceeds]).map (false, ·)

def migrationOfTwo : Machine (Migration Bool) (Bool × CallEvent Unit) :=
  migration migrationForge (fun _ => migrationArgs) legacyDir

/-- After it the canonical certificate is installed, and nothing replaces it. -/
theorem migration_safe_abandoned :
    ∃ s, migrationOfTwo.runFrom migrationOfTwo.init abandonedRun = some s ∧
      s.dir.content .nodeCert = some "canonical".toList ∧ s.Safe migrationForge "legacy" "key" := by
  have hsome : (migrationOfTwo.runFrom migrationOfTwo.init abandonedRun).isSome := by
    decide +kernel
  obtain ⟨s, hs⟩ := Option.isSome_iff_exists.mp hsome
  have hmeets : migrationOfTwo.Meets (fun s a => isOrderly s a = true) migrationOfTwo.init
      abandonedRun := by
    decide +kernel
  have hreach := (Machine.ReachableUnder.init.runFrom hmeets hs).mono fun s a => orderly_of_isOrderly
  have hcontent : (migrationOfTwo.runFrom migrationOfTwo.init abandonedRun).map
      (fun s => s.dir.content .nodeCert) = some (some "canonical".toList) := by decide +kernel
  rw [hs] at hcontent
  exact ⟨s, hs, Option.some.inj hcontent,
    (migration_safe migrationForge_lawful ⟨fun _ => rfl, fun _ => rfl⟩ (by decide) legacyDir_found
      hreach).1⟩

end ThinkLocal.Tls
