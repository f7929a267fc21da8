import ThinkLocal.Foundation.Comparison
import ThinkLocal.Foundation.Segments
import ThinkLocal.Js.ReadNumber
import ThinkLocal.Registry.CapabilityHash

/-!
# Versions

`semver.ts`: a version is read with one pattern and compared by its numbers and the identifiers of its
pre-release.  The pattern knows no build metadata, numbers are rounded to doubles, and an identifier is
taken for a number if `Number` reads one in it.

The versions of SemVer 2.0.0 are `Version`, with a key whose order is the precedence.  A `Kind` says
which numbers, identifiers and build metadata occur in versions.

* `parseSemVer_text`, `compareIdentifier_text`: what is read of a version without build metadata
* `compareSemVer_text`: the comparison is the precedence where all is read well
* `semver_order_iff`: the versions of a kind are ordered well exactly if no build metadata occurs, no two
  numbers are rounded to the same one, and no identifier with a letter is read as a number; two versions
  are if this holds of their own parts
-/

namespace ThinkLocal.Versions

open Foundation Js Registry CapabilityRegistry

/-! ## The functions -/

structure SemVer where
  major : Number
  minor : Number
  patch : Number
  prerelease : Option String

/-- What `.` does not match. -/
def isLineTerminator (c : Char) : Bool := c ∈ ['\n', '\r', '\u2028', '\u2029']

/-- `version.match(/^(\d+)\.(\d+)\.(\d+)(?:-(.+))?$/)`. -/
def parseSemVer (version : String) : Option SemVer :=
  let number (digits : List Char) : Number := toNumber (String.ofList digits)
  match spanDigits version.toList with
  | (major, '.' :: rest) =>
      match spanDigits rest with
      | (minor, '.' :: rest) =>
          match spanDigits rest with
          | (patch, rest) =>
              if major = [] ∨ minor = [] ∨ patch = [] then none
              else
                match rest with
                | [] => some ⟨number major, number minor, number patch, none⟩
                | '-' :: prerelease =>
                    if prerelease = [] ∨ prerelease.any isLineTerminator then none
                    else some ⟨number major, number minor, number patch,
                      some (String.ofList prerelease)⟩
                | _ => none
      | _ => none
  | _ => none

/-- One round of the comparison of pre-releases; 0 to go on. -/
def compareIdentifier (a b : String) : ℤ :=
  if toNumber a ≠ .nan ∧ toNumber b ≠ .nan then
    if toNumber a ≠ toNumber b then if (toNumber b).lt (toNumber a) then 1 else -1 else 0
  else if toNumber a ≠ .nan then -1
  else if toNumber b ≠ .nan then 1
  else if a ≠ b then if codeUnits b < codeUnits a then 1 else -1
  else 0

/-- The rounds, and the comparison of the lengths after them. -/
def compareIdentifiers : List String → List String → ℤ
  | [], [] => 0
  | [], _ :: _ => -1
  | _ :: _, [] => 1
  | a :: as, b :: bs =>
      if compareIdentifier a b = 0 then compareIdentifiers as bs else compareIdentifier a b

/-- The text of a pre-release is not empty where there is one. -/
def comparePrerelease : Option String → Option String → ℤ
  | none, none => 0
  | some _, none => -1
  | none, some _ => 1
  | some a, some b => compareIdentifiers (segments '.' a) (segments '.' b)

def compareSemVer (a b : String) : ℤ :=
  match parseSemVer a, parseSemVer b with
  | some va, some vb =>
      if va.major ≠ vb.major then if vb.major.lt va.major then 1 else -1
      else if va.minor ≠ vb.minor then if vb.minor.lt va.minor then 1 else -1
      else if va.patch ≠ vb.patch then if vb.patch.lt va.patch then 1 else -1
      else comparePrerelease va.prerelease vb.prerelease
  | _, _ => 0

def latestVersion : List String → Option String
  | [] => none
  | first :: rest =>
      some (rest.foldl (fun latest v => if 0 < compareSemVer v latest then v else latest) first)

/-! ## SemVer 2.0.0 -/

/-- ASCII letters, digits and hyphens, at least one of them. -/
structure Identifier where
  text : String
  nonempty : text ≠ ""
  chars : ∀ c ∈ text.toList, (c.isAlphanum || c = '-') = true

/-- An identifier with a character that is no digit. -/
structure AlphaIdentifier extends Identifier where
  nondigit : ∃ c ∈ text.toList, c.isDigit = false

/-- An identifier of a pre-release. -/
inductive PreId
  | numeric (n : ℕ)
  | alphanumeric (id : AlphaIdentifier)

namespace PreId

def text : PreId → String
  | numeric n => Nat.repr n
  | alphanumeric id => id.text

/-- Numbers come before other identifiers, which are in the order of their ASCII characters. -/
def key : PreId → ℕ ⊕ₗ List Char
  | numeric n => Sum.inlₗ n
  | alphanumeric id => Sum.inrₗ id.text.toList

end PreId

structure Version where
  major : ℕ
  minor : ℕ
  patch : ℕ
  prerelease : List PreId
  build : List Identifier

namespace Version

def prereleaseText (v : Version) : String := joinSegments '.' (v.prerelease.map PreId.text)

def buildText (v : Version) : String := joinSegments '.' (v.build.map Identifier.text)

def text (v : Version) : String :=
  Nat.repr v.major ++ "." ++ Nat.repr v.minor ++ "." ++ Nat.repr v.patch ++
    (if v.prerelease = [] then "" else "-" ++ v.prereleaseText) ++
    if v.build = [] then "" else "+" ++ v.buildText

/-- A version without a pre-release comes after those with one, and build metadata does not count. -/
def key (v : Version) : ℕ ×ₗ ℕ ×ₗ ℕ ×ₗ WithTop (List (ℕ ⊕ₗ List Char)) :=
  toLex (v.major, toLex (v.minor, toLex (v.patch,
    if v.prerelease = [] then ⊤ else ((v.prerelease.map PreId.key : List _) : WithTop _))))

end Version

/-- The precedence of versions, as -1, 0 or 1. -/
def precedence (v w : Version) : ℤ := order v.key w.key

/-! ## What is read -/

variable {v w : Version} {n n' : ℕ} {a b : PreId}

/-- What stands behind the numbers. -/
def Version.tail (v : Version) : List Char :=
  (if v.prerelease = [] then [] else '-' :: v.prereleaseText.toList) ++
    if v.build = [] then [] else '+' :: v.buildText.toList

theorem toList_text (v : Version) :
    v.text.toList = Nat.toDigits 10 v.major ++ '.' :: (Nat.toDigits 10 v.minor ++
      '.' :: (Nat.toDigits 10 v.patch ++ v.tail)) := by
  simp only [Version.text, Version.tail, String.toList_append, Nat.toList_repr]
  split_ifs <;> simp

theorem spanDigits_toDigits (n : ℕ) {rest : List Char} (h : ∀ c ∈ rest.head?, c.isDigit = false) :
    spanDigits (Nat.toDigits 10 n ++ rest) = (Nat.toDigits 10 n, rest) :=
  spanDigits_append (fun _ hc => isDigit_of_mem_toDigits hc) h

theorem toNumber_toDigits (n : ℕ) : toNumber (String.ofList (Nat.toDigits 10 n)) = .ofNat n := by
  rw [← Nat.repr_eq_ofList_toDigits, toNumber_repr]

theorem toDigits_ne_nil (n : ℕ) : Nat.toDigits 10 n ≠ [] :=
  List.ne_nil_of_length_pos Nat.length_toDigits_pos

theorem head_tail (v : Version) : ∀ c ∈ v.tail.head?, c.isDigit = false := by
  rw [Version.tail]
  split_ifs <;> simp

/-- The characters of an identifier. -/
theorem PreId.char_mem {c : Char} (hc : c ∈ a.text.toList) : (c.isAlphanum || c = '-') = true := by
  cases a with
  | numeric n =>
      have hdigit : c.isDigit = true := isDigit_of_mem_toDigits (Nat.toList_repr ▸ hc)
      simp [Char.isAlphanum, hdigit]
  | alphanumeric id => exact id.chars c hc

theorem PreId.dot_notMem (a : PreId) : '.' ∉ a.text.toList := fun h =>
  absurd (PreId.char_mem h) (by decide)

theorem PreId.ne_empty (a : PreId) : a.text ≠ "" := by
  cases a with
  | numeric n =>
      intro h
      exact toDigits_ne_nil n (by rw [← Nat.toList_repr]; exact congrArg String.toList h)
  | alphanumeric id => exact id.nonempty

theorem prereleaseText_ne_nil (h : v.prerelease ≠ []) : v.prereleaseText.toList ≠ [] := by
  rw [Version.prereleaseText]
  obtain ⟨a, rest, hpre⟩ := List.exists_cons_of_ne_nil h
  obtain ⟨tail, htail, -⟩ : ∃ tail, (joinSegments '.' (a.text :: rest.map PreId.text)).toList =
      a.text.toList ++ tail ∧ _ := exists_toList_joinSegments_cons a.text
  rw [hpre, List.map_cons, htail]
  intro hnil
  exact a.ne_empty (String.toList_injective (List.append_eq_nil_iff.mp hnil).1)

theorem prereleaseText_lines : v.prereleaseText.toList.any isLineTerminator = false := by
  rw [List.any_eq_false]
  intro c hc
  rcases mem_joinSegments hc with rfl | ⟨text, htext, hmem⟩
  · decide
  · obtain ⟨a, -, rfl⟩ := List.mem_map.mp htext
    have hchar := PreId.char_mem hmem
    intro hline
    rw [isLineTerminator, decide_eq_true_eq] at hline
    simp only [List.mem_cons, List.not_mem_nil, or_false] at hline
    rcases hline with rfl | rfl | rfl | rfl <;> exact absurd hchar (by decide)

theorem head_dot {rest : List Char} : ∀ c ∈ ('.' :: rest).head?, c.isDigit = false := by
  rintro c ⟨⟩
  decide

/-- A version without build metadata is read. -/
theorem parseSemVer_text (h : v.build = []) :
    parseSemVer v.text = some ⟨.ofNat v.major, .ofNat v.minor, .ofNat v.patch,
      if v.prerelease = [] then none else some v.prereleaseText⟩ := by
  simp only [parseSemVer, toList_text, spanDigits_toDigits _ head_dot,
    spanDigits_toDigits _ (head_tail v), toDigits_ne_nil, or_self, if_false, toNumber_toDigits]
  by_cases hpre : v.prerelease = []
  · have htail : v.tail = [] := by simp [Version.tail, h, hpre]
    rw [htail, if_pos hpre]
  · have htail : v.tail = '-' :: v.prereleaseText.toList := by simp [Version.tail, h, hpre]
    rw [htail, if_neg hpre]
    simp [prereleaseText_ne_nil hpre, prereleaseText_lines]

/-- Build metadata behind the numbers does not match the pattern. -/
theorem parseSemVer_build (hpre : v.prerelease = []) (h : v.build ≠ []) :
    parseSemVer v.text = none := by
  have htail : v.tail = '+' :: v.buildText.toList := by simp [Version.tail, h, hpre]
  simp only [parseSemVer, toList_text, spanDigits_toDigits _ head_dot,
    spanDigits_toDigits _ (head_tail v), toDigits_ne_nil, or_self, if_false]
  rw [htail]
  rfl

/-! ## Kinds of versions -/

/-- The parts that occur in versions. -/
structure Kind where
  numbers : Set ℕ
  identifiers : Set AlphaIdentifier
  builds : Set (List Identifier)

namespace Kind

/-- The part occurs. -/
def HasPre (K : Kind) : PreId → Prop
  | .numeric n => n ∈ K.numbers
  | .alphanumeric id => id ∈ K.identifiers

/-- The version has parts of the kind only. -/
structure Has (K : Kind) (v : Version) : Prop where
  major : v.major ∈ K.numbers
  minor : v.minor ∈ K.numbers
  patch : v.patch ∈ K.numbers
  prerelease : ∀ a ∈ v.prerelease, K.HasPre a
  build : v.build = [] ∨ v.build ∈ K.builds

/-- No build metadata, no two numbers that are rounded to the same one, and no identifier with a letter
or a hyphen that is read as a number. -/
structure Readable (K : Kind) : Prop where
  builds : ∀ build ∈ K.builds, build = []
  numbers : Set.InjOn Number.ofNat K.numbers
  identifiers : ∀ id ∈ K.identifiers, toNumber id.text = .nan

/-- The parts of two versions. -/
def parts (v w : Version) : Kind where
  numbers := {n | n ∈ [v.major, v.minor, v.patch, w.major, w.minor, w.patch] ∨
    .numeric n ∈ v.prerelease ++ w.prerelease}
  identifiers := {id | .alphanumeric id ∈ v.prerelease ++ w.prerelease}
  builds := {v.build, w.build}

/-- The versions of the kind are compared by their precedence, and the latest of some of them is found. -/
structure Ordered (K : Kind) : Prop where
  compares : ∀ v w, K.Has v → K.Has w → compareSemVer v.text w.text = precedence v w
  antisymmetric : ∀ v w, K.Has v → K.Has w → compareSemVer w.text v.text = -compareSemVer v.text w.text
  transitive : ∀ u v w, K.Has u → K.Has v → K.Has w → compareSemVer u.text v.text ≤ 0 →
    compareSemVer v.text w.text ≤ 0 → compareSemVer u.text w.text ≤ 0
  total : ∀ v w, K.Has v → K.Has w →
    compareSemVer v.text w.text ≤ 0 ∨ compareSemVer w.text v.text ≤ 0
  latest : ∀ versions : List Version, versions ≠ [] → (∀ v ∈ versions, K.Has v) →
    ∃ v ∈ versions, latestVersion (versions.map Version.text) = some v.text ∧
      ∀ w ∈ versions, precedence w v ≤ 0

end Kind

/-! ## Comparing what was read -/

variable {K : Kind}

/-- Numbers that are not rounded to the same one are compared as they are. -/
theorem compare_ofNat (h : Number.ofNat n = .ofNat n' → n = n') (next : ℤ) :
    (if Number.ofNat n ≠ .ofNat n' then
      if (Number.ofNat n').lt (.ofNat n) then 1 else -1 else next) =
      if n = n' then next else order n n' := by
  rcases lt_trichotomy n n' with hlt | rfl | hlt
  · have hne : Number.ofNat n ≠ .ofNat n' := fun heq => hlt.ne (h heq)
    have hless := (Number.ofNat_mono hlt.le).resolve_left hne
    have hnot : (Number.ofNat n').lt (.ofNat n) = false := by
      have hle := Number.le_eq_false_of_lt hless
      rw [Number.le, Bool.or_eq_false_iff] at hle
      exact hle.1
    rw [if_pos hne, if_neg hlt.ne, hnot, order_of_lt hlt]
    rfl
  · rw [if_neg (not_not.mpr rfl), if_pos rfl]
  · have hne : Number.ofNat n ≠ .ofNat n' := fun heq => hlt.ne' (h heq)
    have hless := (Number.ofNat_mono hlt.le).resolve_left (Ne.symm hne)
    rw [if_pos hne, if_neg hlt.ne', hless, order_of_gt hlt]
    rfl

theorem toNat_lt_of_identifier {c : Char} (h : (c.isAlphanum || c = '-') = true) :
    c.toNat < 0x10000 := by
  simp only [Js.isAlphanum_eq, Bool.or_eq_true, Bool.and_eq_true, decide_eq_true_eq,
    UInt32.le_iff_toNat_le] at h
  have hbound : c.val.toNat ≤ 122 := by
    rcases h with ((⟨-, h⟩ | ⟨-, h⟩) | ⟨-, h⟩) | rfl
    · exact h.trans (by decide)
    · exact h.trans (by decide)
    · exact h.trans (by decide)
    · decide
  exact hbound.trans_lt (by norm_num)

/-- The code units of an identifier are its characters. -/
theorem codeUnits_identifier (id : Identifier) :
    codeUnits id.text = id.text.toList.map Char.toNat := by
  rw [codeUnits, List.map_eq_flatMap]
  refine List.flatMap_congr fun c hc => ?_
  rw [if_pos (toNat_lt_of_identifier (id.chars c hc))]

theorem toNat_strictMono : StrictMono Char.toNat := fun _ _ h => h

theorem order_codeUnits (id id' : Identifier) :
    order (codeUnits id.text) (codeUnits id'.text) = order id.text.toList id'.text.toList := by
  rw [codeUnits_identifier, codeUnits_identifier, order_list_map toNat_strictMono]

/-- One round compares two identifiers by their precedence. -/
theorem compareIdentifier_text (hK : K.Readable) (ha : K.HasPre a) (hb : K.HasPre b) :
    compareIdentifier a.text b.text = order a.key b.key := by
  have hnumeric (n : ℕ) : toNumber (PreId.numeric n).text = .ofNat n := toNumber_repr n
  have hnan (id : AlphaIdentifier) (hid : id ∈ K.identifiers) :
      toNumber (PreId.alphanumeric id).text = .nan := hK.identifiers id hid
  rw [compareIdentifier]
  cases a with
  | numeric n =>
      cases b with
      | numeric n' =>
          rw [hnumeric, hnumeric, if_pos ⟨Number.ofNat_ne_nan n, Number.ofNat_ne_nan n'⟩,
            compare_ofNat (hK.numbers ha hb) 0, PreId.key, PreId.key, order_inl]
          split_ifs with heq
          · rw [heq, order_self]
          · rfl
      | alphanumeric id' =>
          rw [hnumeric, hnan id' hb, if_neg (by simp), if_pos (Number.ofNat_ne_nan n), PreId.key,
            PreId.key, order_inl_inr]
  | alphanumeric id =>
      cases b with
      | numeric n' =>
          rw [hnumeric, hnan id ha, if_neg (by simp), if_neg (by simp),
            if_pos (Number.ofNat_ne_nan n'), PreId.key, PreId.key, order_inr_inl]
      | alphanumeric id' =>
          rw [hnan id ha, hnan id' hb, if_neg (by simp), if_neg (by simp), if_neg (by simp), PreId.key,
            PreId.key, order_inr, ← order_codeUnits]
          change (if id.text ≠ id'.text then _ else _) = _
          rcases lt_trichotomy (codeUnits id.text) (codeUnits id'.text) with hlt | heq | hlt
          · have hne : id.text ≠ id'.text := fun heq => hlt.ne (congrArg codeUnits heq)
            rw [if_pos hne, order_of_lt hlt]
            exact if_neg hlt.not_gt
          · rw [if_neg (not_not.mpr (codeUnits_injective heq)), heq, order_self]
          · have hne : id.text ≠ id'.text := fun heq => hlt.ne' (congrArg codeUnits heq)
            rw [if_pos hne, order_of_gt hlt]
            exact if_pos hlt

theorem compareIdentifiers_text (hK : K.Readable) {as bs : List PreId}
    (has : ∀ a ∈ as, K.HasPre a) (hbs : ∀ b ∈ bs, K.HasPre b) :
    compareIdentifiers (as.map PreId.text) (bs.map PreId.text) =
      order (as.map PreId.key) (bs.map PreId.key) := by
  induction as generalizing bs with
  | nil =>
      cases bs with
      | nil => exact (order_self _).symm
      | cons b bs => exact (order_nil_cons _ _).symm
  | cons a as ih =>
      cases bs with
      | nil => exact (order_cons_nil _ _).symm
      | cons b bs =>
          obtain ⟨ha, has⟩ := List.forall_mem_cons.mp has
          obtain ⟨hb, hbs⟩ := List.forall_mem_cons.mp hbs
          rw [List.map_cons, List.map_cons, List.map_cons, List.map_cons, compareIdentifiers,
            compareIdentifier_text hK ha hb, ih has hbs, order_cons]
          by_cases hkey : a.key = b.key
          · rw [if_pos (order_eq_zero_iff.mpr hkey), if_pos hkey]
          · rw [if_neg (mt order_eq_zero_iff.mp hkey), if_neg hkey]

theorem segments_prereleaseText (h : v.prerelease ≠ []) :
    segments '.' v.prereleaseText = v.prerelease.map PreId.text := by
  refine segments_joinSegments (fun part hpart => ?_) (by simpa using h)
  obtain ⟨a, -, rfl⟩ := List.mem_map.mp hpart
  exact a.dot_notMem

/-- The versions of a readable kind are compared by their precedence. -/
theorem compareSemVer_text (hK : K.Readable) (hv : K.Has v) (hw : K.Has w) :
    compareSemVer v.text w.text = precedence v w := by
  have hbuild {u : Version} (hu : K.Has u) : u.build = [] :=
    hu.build.elim id fun hmem => hK.builds _ hmem
  rw [compareSemVer, parseSemVer_text (hbuild hv), parseSemVer_text (hbuild hw)]
  dsimp only
  rw [compare_ofNat (hK.numbers hv.major hw.major), compare_ofNat (hK.numbers hv.minor hw.minor),
    compare_ofNat (hK.numbers hv.patch hw.patch), precedence, Version.key, Version.key, order_toLex,
    order_toLex, order_toLex]
  congr 3
  by_cases hpre : v.prerelease = [] <;> by_cases hpre' : w.prerelease = []
  · rw [if_pos hpre, if_pos hpre', if_pos hpre, if_pos hpre', order_self]
    rfl
  · rw [if_pos hpre, if_neg hpre', if_pos hpre, if_neg hpre', order_top_coe]
    rfl
  · rw [if_neg hpre, if_pos hpre', if_neg hpre, if_pos hpre', order_coe_top]
    rfl
  · rw [if_neg hpre, if_neg hpre', if_neg hpre, if_neg hpre', order_coe, comparePrerelease,
      segments_prereleaseText hpre, segments_prereleaseText hpre',
      compareIdentifiers_text hK hv.prerelease hw.prerelease]

/-- The first of the latest is found. -/
theorem latestVersion_text (hK : K.Readable) {versions : List Version} (hne : versions ≠ [])
    (hversions : ∀ v ∈ versions, K.Has v) :
    ∃ v ∈ versions, latestVersion (versions.map Version.text) = some v.text ∧
      ∀ w ∈ versions, precedence w v ≤ 0 := by
  obtain ⟨first, rest, rfl⟩ := List.exists_cons_of_ne_nil hne
  have hbest : IsFirstMax Version.key (first :: rest)
      (rest.foldl (fun best v => if best.key < v.key then v else best) first) :=
    isFirstMax_foldl fun _ _ _ _ => rfl
  refine ⟨_, hbest.mem, ?_, fun w hw => order_nonpos_iff.mpr (hbest.le hw)⟩
  -- the fold over the texts is the fold over the versions
  have hfold (l : List Version) (hl : ∀ v ∈ l, K.Has v) (best : Version) (hmem : K.Has best) :
      (l.map Version.text).foldl (fun latest v => if 0 < compareSemVer v latest then v else latest)
        best.text = (l.foldl (fun best v => if best.key < v.key then v else best) best).text := by
    induction l generalizing best with
    | nil => rfl
    | cons v l ih =>
        obtain ⟨hv, hl⟩ := List.forall_mem_cons.mp hl
        simp only [List.map_cons, List.foldl_cons, compareSemVer_text hK hv hmem, precedence,
          order_pos_iff]
        by_cases hlt : best.key < v.key
        · rw [if_pos hlt, if_pos hlt]
          exact ih hl v hv
        · rw [if_neg hlt, if_neg hlt]
          exact ih hl best hmem
  exact congrArg some (hfold rest (fun v hv => hversions v (List.mem_cons_of_mem _ hv)) first
    (hversions first List.mem_cons_self))

/-- The hyphen is the first of the characters of an identifier. -/
theorem hyphen_lt {text : String} (hne : text ≠ "")
    (hchars : ∀ c ∈ text.toList, (c.isAlphanum || c = '-') = true) (h : text ≠ "-") :
    "-".toList < text.toList := by
  have hhyphen : "-".toList = ['-'] := rfl
  obtain ⟨c, rest, hlist⟩ := List.exists_cons_of_ne_nil fun hnil => hne (String.toList_injective hnil)
  rw [hhyphen, hlist, List.cons_lt_cons_iff]
  by_cases hc : c = '-'
  · subst hc
    cases rest with
    | nil => exact absurd (String.toList_injective hlist) h
    | cons d rest => exact .inr ⟨rfl, List.nil_lt_cons d rest⟩
  · have hchar := hchars c (by simp [hlist])
    simp only [Js.isAlphanum_eq, Bool.or_eq_true, Bool.and_eq_true, decide_eq_true_eq,
      UInt32.le_iff_toNat_le] at hchar
    have hbound : 48 ≤ c.val.toNat := by
      rcases hchar with ((⟨h, -⟩ | ⟨h, -⟩) | ⟨h, -⟩) | rfl
      · exact le_trans (by decide) h
      · exact le_trans (by decide) h
      · exact h
      · exact absurd rfl hc
    exact .inl (UInt32.lt_iff_toNat_lt.mpr (lt_of_lt_of_le (by decide) hbound))

/-! ## The order of a kind -/

theorem Kind.Readable.ordered (hK : K.Readable) : K.Ordered where
  compares _ _ hv hw := compareSemVer_text hK hv hw
  antisymmetric v w hv hw := by
    rw [compareSemVer_text hK hv hw, compareSemVer_text hK hw hv, precedence, precedence, order_swap]
  transitive u v w hu hv hw huv hvw := by
    rw [compareSemVer_text hK hu hv, precedence, order_nonpos_iff] at huv
    rw [compareSemVer_text hK hv hw, precedence, order_nonpos_iff] at hvw
    rw [compareSemVer_text hK hu hw, precedence, order_nonpos_iff]
    exact huv.trans hvw
  total v w hv hw := by
    rw [compareSemVer_text hK hv hw, compareSemVer_text hK hw hv, precedence, precedence,
      order_nonpos_iff, order_nonpos_iff]
    exact le_total _ _
  latest _ hne hversions := latestVersion_text hK hne hversions

/-- The identifier `-`. -/
def hyphen : AlphaIdentifier where
  text := "-"
  nonempty := by decide
  chars := List.all_eq_true.mp (by decide)
  nondigit := ⟨'-', by decide, rfl⟩

/-- The numbers 0 and 1 and the identifier `-` occur. -/
structure Kind.Usual (K : Kind) : Prop where
  zero : 0 ∈ K.numbers
  one : 1 ∈ K.numbers
  hyphen : hyphen ∈ K.identifiers

namespace Kind.Usual

variable {id : AlphaIdentifier} {build : List Identifier}

/-- A version with three numbers only. -/
def plain (n : ℕ) : Version := ⟨n, 0, 0, [], []⟩

def preOf (id : AlphaIdentifier) : Version := ⟨0, 0, 0, [.alphanumeric id], []⟩

theorem has_plain (h : K.Usual) (hn : n ∈ K.numbers) : K.Has (plain n) :=
  ⟨hn, h.zero, h.zero, fun _ ha => (nomatch ha), .inl rfl⟩

theorem has_preOf (h : K.Usual) (hid : id ∈ K.identifiers) : K.Has (preOf id) :=
  ⟨h.zero, h.zero, h.zero, List.forall_mem_singleton.mpr hid, .inl rfl⟩

theorem compareSemVer_preOf (id id' : AlphaIdentifier) :
    compareSemVer (preOf id).text (preOf id').text = compareIdentifiers [id.text] [id'.text] := by
  have hsegments (id : AlphaIdentifier) : segments '.' (preOf id).prereleaseText = [id.text] :=
    segments_prereleaseText (List.cons_ne_nil _ _)
  have hread (id : AlphaIdentifier) : parseSemVer (preOf id).text =
      some ⟨.ofNat 0, .ofNat 0, .ofNat 0, some (preOf id).prereleaseText⟩ := parseSemVer_text rfl
  rw [compareSemVer, hread, hread, ← hsegments id, ← hsegments id']
  simp only [ne_eq, not_true_eq_false, if_false, comparePrerelease]

theorem precedence_preOf (id id' : AlphaIdentifier) :
    precedence (preOf id) (preOf id') = order id.text.toList id'.text.toList := by
  have hkey (id : AlphaIdentifier) : (preOf id).key = toLex (0, toLex (0, toLex (0,
      (([Sum.inrₗ id.text.toList] : List (ℕ ⊕ₗ List Char)) : WithTop (List (ℕ ⊕ₗ List Char)))))) := rfl
  rw [precedence, hkey, hkey, order_toLex, if_pos rfl, order_toLex, if_pos rfl, order_toLex,
    if_pos rfl, order_coe, order_cons, order_inr, order_self]
  split_ifs with heq
  · have hsame : order (Sum.inrₗ id.text.toList : ℕ ⊕ₗ List Char) (Sum.inrₗ id'.text.toList) = 0 :=
      order_eq_zero_iff.mpr heq
    rw [order_inr] at hsame
    exact hsame.symm
  · rfl

/-- Numbers that are rounded to the same one are taken for equal. -/
theorem compareSemVer_plain (heq : Number.ofNat n = .ofNat n') :
    compareSemVer (plain n).text (plain n').text = 0 := by
  rw [compareSemVer, parseSemVer_text rfl, parseSemVer_text rfl]
  simp [plain, heq, comparePrerelease]

theorem precedence_plain (hne : n ≠ n') : precedence (plain n) (plain n') = order n n' := by
  have hmajor : (plain n).major ≠ (plain n').major := hne
  rw [precedence, Version.key, Version.key, order_toLex, if_neg hmajor]
  rfl

/-- An identifier that is read as a number is put before `-`, though it comes after that. -/
theorem compareSemVer_hyphen (hnumber : toNumber id.text ≠ .nan) :
    compareSemVer (preOf id).text (preOf Versions.hyphen).text = -1 := by
  have hnan : toNumber Versions.hyphen.text = .nan := by decide +kernel
  have hround : compareIdentifier id.text Versions.hyphen.text = -1 := by
    rw [compareIdentifier, hnan, if_neg (by simp), if_pos hnumber]
  rw [compareSemVer_preOf, compareIdentifiers, hround, if_neg (by decide)]

theorem precedence_hyphen (hnumber : toNumber id.text ≠ .nan) :
    precedence (preOf id) (preOf Versions.hyphen) = 1 := by
  rw [precedence_preOf]
  refine order_of_gt (hyphen_lt id.nonempty id.chars fun heq => hnumber ?_)
  rw [heq]
  decide +kernel

/-- With build metadata two versions with different numbers are taken for equal. -/
theorem builds_eq_nil (h : K.Usual) (hordered : K.Ordered) (hbuild : build ∈ K.builds) :
    build = [] := by
  by_contra hne
  have hhas (n : ℕ) (hn : n ∈ K.numbers) : K.Has ⟨n, 0, 0, [], build⟩ :=
    ⟨hn, h.zero, h.zero, fun _ ha => (nomatch ha), .inr hbuild⟩
  have hcompare := hordered.compares _ _ (hhas 0 h.zero) (hhas 1 h.one)
  rw [compareSemVer, parseSemVer_build rfl hne] at hcompare
  have hlt : precedence ⟨0, 0, 0, [], build⟩ ⟨1, 0, 0, [], build⟩ = -1 := by
    rw [precedence, Version.key, Version.key, order_toLex]
    rfl
  rw [hlt] at hcompare
  cases hcompare

theorem injOn (h : K.Usual) (hordered : K.Ordered) : Set.InjOn Number.ofNat K.numbers := by
  intro n hn n' hn' heq
  have hcompare := hordered.compares _ _ (h.has_plain hn) (h.has_plain hn')
  by_contra hne
  rw [compareSemVer_plain heq, precedence_plain hne] at hcompare
  exact hne (order_eq_zero_iff.mp hcompare.symm)

theorem toNumber_eq_nan (h : K.Usual) (hordered : K.Ordered) (hid : id ∈ K.identifiers) :
    toNumber id.text = .nan := by
  by_contra hnumber
  have hcompare := hordered.compares _ _ (h.has_preOf hid) (h.has_preOf h.hyphen)
  rw [compareSemVer_hyphen hnumber, precedence_hyphen hnumber] at hcompare
  cases hcompare

end Kind.Usual

theorem hasPre_parts (h : a ∈ v.prerelease ++ w.prerelease) : (Kind.parts v w).HasPre a := by
  cases a with
  | numeric n => exact .inr h
  | alphanumeric id => exact h

theorem has_parts_left (v w : Version) : (Kind.parts v w).Has v :=
  ⟨.inl (by simp), .inl (by simp), .inl (by simp),
    fun _ ha => hasPre_parts (List.mem_append_left _ ha), .inr (.inl rfl)⟩

theorem has_parts_right (v w : Version) : (Kind.parts v w).Has w :=
  ⟨.inl (by simp), .inl (by simp), .inl (by simp),
    fun _ ha => hasPre_parts (List.mem_append_right _ ha), .inr (.inr rfl)⟩

/-- The versions of a kind are compared by their precedence exactly if the kind is readable, and two
versions are if their own parts are. -/
theorem semver_order_iff (K : Kind) (h : K.Usual) :
    (K.Ordered ↔ K.Readable) ∧
      ∀ v w, (Kind.parts v w).Readable → compareSemVer v.text w.text = precedence v w :=
  ⟨⟨fun hordered => ⟨fun _ hbuild => h.builds_eq_nil hordered hbuild, h.injOn hordered,
    fun _ hid => h.toNumber_eq_nan hordered hid⟩, fun hK => hK.ordered⟩,
    fun v w hK => compareSemVer_text hK (has_parts_left v w) (has_parts_right v w)⟩

/-- Versions whose numbers are exact, without identifiers that are numbers in other notations. -/
def exactKind : Kind where
  numbers := {n | n ≤ 2 ^ 53}
  identifiers := {id | toNumber id.text = .nan}
  builds := ∅

theorem usual_exactKind : exactKind.Usual where
  zero := Nat.zero_le _
  one := Nat.one_le_two_pow
  hyphen := by
    show toNumber "-" = .nan
    decide +kernel

theorem readable_exactKind : exactKind.Readable where
  builds _ h := h.elim
  numbers n hn n' hn' heq := by
    rw [Number.ofNat_eq_finite hn, Number.ofNat_eq_finite hn'] at heq
    exact Nat.cast_injective (Number.finite.inj heq)
  identifiers _ h := h

theorem exactKind_ordered : exactKind.Ordered :=
  (semver_order_iff exactKind usual_exactKind).1.mpr readable_exactKind

/-- The identifier `0x10`. -/
def hexadecimal : AlphaIdentifier where
  text := "0x10"
  nonempty := by decide
  chars := List.all_eq_true.mp (by decide)
  nondigit := ⟨'x', by decide, rfl⟩

/-- The identifier `b`. -/
def letterB : Identifier where
  text := "b"
  nonempty := by decide
  chars := List.all_eq_true.mp (by decide)

/-- Two versions with build metadata are taken for equal, and `0x10` is put before the number 17. -/
theorem versions_misordered :
    compareSemVer (Version.text ⟨1, 0, 0, [], [letterB]⟩) (Version.text ⟨2, 0, 0, [], [letterB]⟩) = 0 ∧
      precedence ⟨1, 0, 0, [], [letterB]⟩ ⟨2, 0, 0, [], [letterB]⟩ = -1 ∧
      compareSemVer (Version.text ⟨1, 0, 0, [.alphanumeric hexadecimal], []⟩)
        (Version.text ⟨1, 0, 0, [.numeric 17], []⟩) = -1 ∧
      precedence ⟨1, 0, 0, [.alphanumeric hexadecimal], []⟩ ⟨1, 0, 0, [.numeric 17], []⟩ = 1 :=
  ⟨by decide +kernel, by decide +kernel, by decide +kernel, by decide +kernel⟩

end ThinkLocal.Versions
