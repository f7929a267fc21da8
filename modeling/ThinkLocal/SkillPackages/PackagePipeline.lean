import ThinkLocal.Foundation.Except
import ThinkLocal.SkillPackages.SkillPackage

/-!
# What a package leaves on the disk

The two files of an installed skill are what was signed unless the entrypoint has the name of the
manifest, which is written last.  A package is saved as a file that can be loaded and is valid unless its
version leads elsewhere.
-/

namespace ThinkLocal.SkillPackages

open Foundation Js

variable {crypto : Crypto} {disk after : Disk} {pkg : SkillPackage} {path skillsDir outputDir : Path}
  {manifest : SkillManifest} {codeContent privateKeyPem publicKeyPem : String}

/-! ## Installed skills -/

/-- `skillsDir/<id>`. -/
def SkillPackage.skillDir (pkg : SkillPackage) (skillsDir : Path) : Path :=
  skillsDir ++ [Json.template (Json.fieldOf pkg.manifest "id")]

/-- The last name of the entrypoint. -/
def SkillPackage.entrypointName (pkg : SkillPackage) : String :=
  basename (Json.template (Json.fieldOf pkg.manifest "entrypoint"))

theorem template_of_textField {fields : List (String × Json)} {key text : String}
    (h : textField fields key = some text) : Json.template (Json.fieldOf fields key) = text := by
  unfold textField at h
  split at h
  · next heq =>
      obtain rfl := Option.some.inj h
      rw [heq]
      rfl
  · cases h

theorem pathText_eq_ok {fields : List (String × Json)} {key text : String}
    (h : pathText fields key = .ok text) : Json.template (Json.fieldOf fields key) = text := by
  unfold pathText at h
  split at h
  · next heq =>
      obtain rfl := Except.ok.inj h
      exact template_of_textField heq
  · cases h

/-- What an accepted package leaves. -/
theorem installed (h : installSkillPackage crypto disk pkg skillsDir = .ok (path, after)) :
    Verified crypto pkg ∧ path = pkg.skillDir skillsDir ++ [pkg.entrypointName] ∧
      ∀ other, after.tree.content other =
        if other = pkg.skillDir skillsDir ++ ["manifest.json"] then
          some (encodeUtf8 pkg.manifestContent)
        else if other = path then some (encodeUtf8 pkg.codeContent)
        else disk.tree.content other := by
  unfold installSkillPackage at h
  dsimp only at h
  split at h
  case isFalse => cases h
  case isTrue hvalid =>
  have hverified := valid_iff.mp hvalid
  obtain ⟨id, hid, h⟩ := Except.bind_eq_ok_iff.mp h
  obtain ⟨made, hmade, h⟩ := Except.bind_eq_ok_iff.mp h
  obtain ⟨entrypoint, hentrypoint, h⟩ := Except.bind_eq_ok_iff.mp h
  obtain ⟨extracted, hextracted, h⟩ := Except.bind_eq_ok_iff.mp h
  obtain ⟨last, hlast, h⟩ := Except.bind_eq_ok_iff.mp h
  obtain ⟨rfl, rfl⟩ := Prod.mk.inj (Except.ok.inj h)
  have hdir : resolve skillsDir id = pkg.skillDir skillsDir := by
    rw [← pathText_eq_ok hid, resolve_of_isName (isName_of_validId hverified.validId)]
    rfl
  rw [hdir] at hmade hextracted hlast ⊢
  obtain ⟨⟨hcan, -⟩, rfl⟩ := Disk.mkdir_eq_ok.mp hmade
  have hcode := Disk.written hextracted
  have hmanifest := Disk.written hlast
  -- a file is written, so the entrypoint does not lead to the directory itself or out of it
  have hname : IsName pkg.entrypointName := by
    by_contra hnot
    have hstands : (disk.tree.make (pkg.skillDir skillsDir)).isDirectory
        (resolve (pkg.skillDir skillsDir) pkg.entrypointName) = true :=
      FileTree.isDirectory_make.mpr (.inl (resolve_basename hnot))
    have hwrite := hcode.canWrite.2.2
    rw [← pathText_eq_ok hentrypoint] at hwrite
    exact Bool.false_ne_true (hwrite.symm.trans hstands)
  have hpath : resolve (pkg.skillDir skillsDir) (basename entrypoint) =
      pkg.skillDir skillsDir ++ [pkg.entrypointName] := by
    rw [← pathText_eq_ok hentrypoint]
    exact resolve_of_isName hname
  have hplace : resolve (pkg.skillDir skillsDir) "manifest.json" =
      pkg.skillDir skillsDir ++ ["manifest.json"] := resolve_of_isName (by decide)
  refine ⟨hverified, hpath, fun other => ?_⟩
  rw [hmanifest.content_eq, hplace, hcode.content_eq]
  dsimp only
  rw [FileTree.content_make hcan]

/-- The manifest and the code do not share a file, or are the same. -/
def SkillPackage.Apart (pkg : SkillPackage) : Prop :=
  pkg.entrypointName ≠ "manifest.json" ∨ pkg.codeContent = pkg.manifestContent

theorem truthy_of_textField {fields : List (String × Json)} {key text : String}
    (h : textField fields key = some text) (hne : text ≠ "") :
    Json.truthy (Json.fieldOf fields key) = true := by
  unfold textField at h
  split at h
  · next heq =>
      obtain rfl := Option.some.inj h
      rw [heq]
      exact decide_eq_true hne
  · cases h

/-- The package that is read from the file of a package. -/
def SkillPackage.reread (pkg : SkillPackage) : SkillPackage :=
  { pkg with manifest := Json.ofFields (Json.rereadFields pkg.manifest) }

theorem textField_reread {fields : List (String × Json)} (h : (fields.map Prod.fst).Nodup)
    {key text : String} (htext : Json.fieldOf fields key = some (.string text)) :
    textField (Json.ofFields (Json.rereadFields fields)) key = some text := by
  rw [textField, Json.fieldOf_reread h, htext]
  rfl

/-- A valid package with texts for its names is still valid when it was saved and loaded. -/
theorem Verified.reread (h : Verified crypto pkg) (hheld : (Json.object pkg.manifest).Held)
    (htexts : ∀ key ∈ ["id", "version", "entrypoint"],
      ∃ text, Json.fieldOf pkg.manifest key = some (.string text)) :
    Verified crypto pkg.reread := by
  have hpayload : signPayload pkg.reread.manifest pkg.code = signPayload pkg.manifest pkg.code := by
    have hsame := Json.stringify_reread 0 hheld
    rw [Json.reread] at hsame
    rw [signPayload, signPayload, ← hsame]
    rfl
  rw [Json.Held] at hheld
  have hfield : ∀ key ∈ ["id", "version", "entrypoint"],
      Json.fieldOf pkg.reread.manifest key = Json.fieldOf pkg.manifest key := by
    intro key hkey
    obtain ⟨text, htext⟩ := htexts key hkey
    rw [SkillPackage.reread, Json.fieldOf_reread hheld.1.nodup, htext]
    rfl
  refine ⟨h.format, h.integrity, ?_, fun key hkey => ?_, ?_⟩
  · exact (congrArg (crypto.verifySignature pkg.authorPublicKey · (fromBase64 pkg.signature))
      hpayload).trans h.signature
  · rw [hfield key hkey]
    exact h.present key hkey
  · rw [hfield "id" List.mem_cons_self]
    exact h.validId

end ThinkLocal.SkillPackages
