import ThinkLocal.Foundation.Segments

/-!
# Ranges of addresses

`ipInCidr` of the discovery policy and `isValidCidr` of the configuration.  Both cut a text at its slashes
and look at the first two parts only, so a range may be followed by a further slash and any text.

* `ipv4ToNum_eq_some_iff`, `ipInCidr_iff`, `isValidCidr_iff`: what the functions accept
* `and_mask_eq_iff`: a mask keeps the first bits, for the shifts and signed results of JavaScript
* `cidr_law`: both functions know the grammar of ranges exactly if no slash follows a range
-/

namespace ThinkLocal.Js

/-! ## Operations on 32 bits -/

/-- `x & y` of integers: the result is signed. -/
def bitAnd (x y : ℤ) : ℤ := (BitVec.ofInt 32 x &&& BitVec.ofInt 32 y).toInt

/-- `x << count`: the count is taken modulo 32, and the result is signed. -/
def shiftLeft (x count : ℤ) : ℤ := (BitVec.ofInt 32 x <<< ((BitVec.ofInt 32 count).toNat % 32)).toInt

/-- `x >>> count`: the result is unsigned. -/
def unsignedShiftRight (x count : ℤ) : ℤ :=
  (BitVec.ofInt 32 x >>> ((BitVec.ofInt 32 count).toNat % 32)).toNat

/-- `/^\d{1,most}$/.test(text)`. -/
def isDigits (most : ℕ) (text : String) : Bool :=
  1 ≤ text.toList.length && text.toList.length ≤ most && text.toList.all Char.isDigit

/-- `Number(text)` of a text of at most 15 digits, which is exact. -/
def digitsValue (text : String) : ℤ := Nat.ofDigitChars 10 text.toList 0

end ThinkLocal.Js

namespace ThinkLocal.Mesh

open Foundation Js

/-! ## The functions -/

/-- One round of the loop of `ipv4ToNum`. -/
def addPart (num : ℤ) (p : String) : Option ℤ :=
  if !isDigits 3 p then none
  else if digitsValue p < 0 ∨ 255 < digitsValue p then none
  else some (unsignedShiftRight (num * 256 + digitsValue p) 0)

def ipv4ToNum (ip : String) : Option ℤ :=
  if (segments '.' ip).length ≠ 4 then none else (segments '.' ip).foldlM addPart 0

/-- `prefixLength === 32 ? 0xffffffff : (0xffffffff << (32 - prefixLength)) >>> 0`. -/
def maskOf (prefixLength : ℤ) : ℤ :=
  if prefixLength = 32 then 0xffffffff
  else unsignedShiftRight (shiftLeft 0xffffffff (32 - prefixLength)) 0

def ipInCidr (ip cidr : String) : Bool :=
  match segments '/' cidr with
  | base :: prefixStr :: _ =>
      if base = "" ∨ prefixStr = "" then false
      else if !isDigits 2 prefixStr then false
      else if digitsValue prefixStr < 0 ∨ 32 < digitsValue prefixStr then false
      else
        match ipv4ToNum ip, ipv4ToNum base with
        | some ipNum, some baseNum =>
            if digitsValue prefixStr = 0 then true
            else
              bitAnd ipNum (maskOf (digitsValue prefixStr)) =
                bitAnd baseNum (maskOf (digitsValue prefixStr))
        | _, _ => false
  | _ => false

/-- `isValidCidr` of `config.ts`. -/
def isValidCidr (s : String) : Bool :=
  match segments '/' s with
  | base :: prefixStr :: _ =>
      if base = "" ∨ prefixStr = "" then false
      else if !isDigits 2 prefixStr then false
      else if digitsValue prefixStr < 0 ∨ 32 < digitsValue prefixStr then false
      else if (segments '.' base).length ≠ 4 then false
      else
        (segments '.' base).all fun part =>
          isDigits 3 part && !(digitsValue part < 0 || 255 < digitsValue part)
  | _ => false

/-! ## Addresses and ranges -/

/-- One to `most` decimal digits with the value `n`. -/
structure IsDecimal (most : ℕ) (text : String) (n : ℕ) : Prop where
  digits : ∀ c ∈ text.toList, c.isDigit = true
  nonempty : 1 ≤ text.toList.length
  length : text.toList.length ≤ most
  value : Nat.ofDigitChars 10 text.toList 0 = n

/-- Four decimal numbers of at most three digits from 0 to 255, with dots in between. -/
def IsAddress (text : String) (a : BitVec 32) : Prop :=
  ∃ p₁ p₂ p₃ p₄ n₁ n₂ n₃ n₄, text = joinSegments '.' [p₁, p₂, p₃, p₄] ∧
    (IsDecimal 3 p₁ n₁ ∧ n₁ ≤ 255) ∧ (IsDecimal 3 p₂ n₂ ∧ n₂ ≤ 255) ∧
    (IsDecimal 3 p₃ n₃ ∧ n₃ ≤ 255) ∧ (IsDecimal 3 p₄ n₄ ∧ n₄ ≤ 255) ∧
    a.toNat = ((n₁ * 256 + n₂) * 256 + n₃) * 256 + n₄

/-- An address and the length of a prefix of it, with a slash in between. -/
def IsCidr (text : String) (base : BitVec 32) (n : ℕ) : Prop :=
  ∃ p q, text = joinSegments '/' [p, q] ∧ IsAddress p base ∧ IsDecimal 2 q n ∧ n ≤ 32

/-- The address has the first bits of the range. -/
def Within (ip cidr : String) : Prop :=
  ∃ a base n, IsAddress ip a ∧ IsCidr cidr base n ∧ ∀ i < n, a.getMsbD i = base.getMsbD i

/-- A slash and any text follow a range. -/
def Continued (cidr : String) : Prop :=
  ∃ range rest base n, cidr = range ++ "/" ++ rest ∧ IsCidr range base n

/-- The first two parts of the text are those of a range. -/
def BeginsWithCidr (text : String) (base : BitVec 32) (n : ℕ) : Prop :=
  ∃ p q rest, segments '/' text = p :: q :: rest ∧ IsAddress p base ∧ IsDecimal 2 q n ∧ n ≤ 32

/-! ## Numbers -/

variable {text ip base cidr : String} {most n : ℕ} {a b : BitVec 32}

theorem isDigits_iff : isDigits most text = true ↔ ∃ n, IsDecimal most text n := by
  simp only [isDigits, Bool.and_eq_true, decide_eq_true_eq, List.all_eq_true]
  constructor
  · rintro ⟨⟨hnonempty, hlength⟩, hdigits⟩
    exact ⟨_, hdigits, hnonempty, hlength, rfl⟩
  · rintro ⟨n, h⟩
    exact ⟨⟨h.nonempty, h.length⟩, h.digits⟩

theorem IsDecimal.digitsValue_eq (h : IsDecimal most text n) : digitsValue text = n := by
  rw [digitsValue, h.value]

theorem IsDecimal.notMem (h : IsDecimal most text n) {c : Char} (hc : c.isDigit = false) :
    c ∉ text.toList := fun hmem => by
  have hdigit := h.digits c hmem
  rw [hc] at hdigit
  cases hdigit

theorem IsDecimal.slash_notMem (h : IsDecimal most text n) : '/' ∉ text.toList :=
  h.notMem (by decide)

theorem IsDecimal.dot_notMem (h : IsDecimal most text n) : '.' ∉ text.toList :=
  h.notMem (by decide)

/-- A decimal number up to a bound, as both functions test it. -/
theorem isDecimal_of_tests (bound : ℕ) (hdigits : isDigits most text = true)
    (hvalue : ¬ (digitsValue text < 0 ∨ (bound : ℤ) < digitsValue text)) :
    ∃ n, IsDecimal most text n ∧ n ≤ bound ∧ digitsValue text = n := by
  obtain ⟨n, hn⟩ := isDigits_iff.mp hdigits
  rw [hn.digitsValue_eq] at hvalue
  exact ⟨n, hn, by omega, hn.digitsValue_eq⟩

theorem unsignedShiftRight_zero {x : ℕ} (h : x < 2 ^ 32) : unsignedShiftRight x 0 = x := by
  have hmod : x % 2 ^ 32 = x := Nat.mod_eq_of_lt h
  rw [unsignedShiftRight, BitVec.ofInt_natCast]
  simpa using congrArg (Nat.cast : ℕ → ℤ) hmod

/-- One more part that is accepted. -/
theorem addPart_eq_some_iff (num : ℕ) {p : String} {z : ℤ} (h : num * 256 + 255 < 2 ^ 32) :
    addPart num p = some z ↔ ∃ n, (IsDecimal 3 p n ∧ n ≤ 255) ∧ z = (num * 256 + n : ℕ) := by
  have hshift {n : ℕ} (hn : n ≤ 255) :
      unsignedShiftRight ((num : ℤ) * 256 + n) 0 = (num * 256 + n : ℕ) := by
    have hcast : (num : ℤ) * 256 + n = (num * 256 + n : ℕ) := by push_cast; rfl
    rw [hcast]
    exact unsignedShiftRight_zero (by omega)
  rw [addPart]
  constructor
  · intro hsome
    split_ifs at hsome with hdigits hvalue
    obtain ⟨n, hn, hle, heq⟩ := isDecimal_of_tests 255 (by simpa using hdigits) hvalue
    rw [heq, hshift hle] at hsome
    exact ⟨n, ⟨hn, hle⟩, (Option.some.inj hsome).symm⟩
  · rintro ⟨n, ⟨hn, hle⟩, rfl⟩
    have hdigits : isDigits 3 p = true := isDigits_iff.mpr ⟨n, hn⟩
    have hvalue : ¬ ((n : ℤ) < 0 ∨ 255 < (n : ℤ)) := by omega
    rw [hn.digitsValue_eq, hdigits, if_neg (by simp), if_neg hvalue, hshift hle]

theorem segments_address {p₁ p₂ p₃ p₄ : String} {n₁ n₂ n₃ n₄ : ℕ} (h₁ : IsDecimal 3 p₁ n₁)
    (h₂ : IsDecimal 3 p₂ n₂) (h₃ : IsDecimal 3 p₃ n₃) (h₄ : IsDecimal 3 p₄ n₄) :
    segments '.' (joinSegments '.' [p₁, p₂, p₃, p₄]) = [p₁, p₂, p₃, p₄] := by
  refine segments_joinSegments ?_ (List.cons_ne_nil _ _)
  simp [h₁.dot_notMem, h₂.dot_notMem, h₃.dot_notMem, h₄.dot_notMem]

/-- `ipv4ToNum` reads exactly the addresses. -/
theorem ipv4ToNum_eq_some_iff {z : ℤ} :
    ipv4ToNum ip = some z ↔ ∃ a, IsAddress ip a ∧ z = a.toNat := by
  constructor
  · intro h
    rw [ipv4ToNum] at h
    split_ifs at h with hlength
    obtain ⟨p₁, p₂, p₃, p₄, hparts⟩ := List.length_eq_four.mp (not_not.mp hlength)
    simp only [hparts, List.foldlM_cons, List.foldlM_nil, Option.bind_eq_bind,
      Option.bind_eq_some_iff] at h
    obtain ⟨z₁, hz₁, z₂, hz₂, z₃, hz₃, z₄, hz₄, hz⟩ := h
    obtain ⟨n₁, h₁, rfl⟩ := (addPart_eq_some_iff 0 (by omega)).mp hz₁
    obtain ⟨n₂, h₂, rfl⟩ := (addPart_eq_some_iff _ (by omega)).mp hz₂
    obtain ⟨n₃, h₃, rfl⟩ := (addPart_eq_some_iff _ (by omega)).mp hz₃
    obtain ⟨n₄, h₄, rfl⟩ := (addPart_eq_some_iff _ (by omega)).mp hz₄
    obtain rfl := Option.some.inj hz
    refine ⟨BitVec.ofNat 32 (((n₁ * 256 + n₂) * 256 + n₃) * 256 + n₄),
      ⟨p₁, p₂, p₃, p₄, n₁, n₂, n₃, n₄, ?_, h₁, h₂, h₃, h₄, ?_⟩, ?_⟩
    · rw [← hparts, joinSegments_segments]
    · rw [BitVec.toNat_ofNat, Nat.mod_eq_of_lt (by omega)]
    · rw [BitVec.toNat_ofNat, Nat.mod_eq_of_lt (by omega)]
      simp
  · rintro ⟨a, ⟨p₁, p₂, p₃, p₄, n₁, n₂, n₃, n₄, rfl, h₁, h₂, h₃, h₄, ha⟩, rfl⟩
    have hz₁ : addPart 0 p₁ = some ((0 * 256 + n₁ : ℕ) : ℤ) :=
      (addPart_eq_some_iff 0 (by omega)).mpr ⟨n₁, h₁, rfl⟩
    have hz₂ := (addPart_eq_some_iff (0 * 256 + n₁) (by omega)).mpr ⟨n₂, h₂, rfl⟩
    have hz₃ := (addPart_eq_some_iff ((0 * 256 + n₁) * 256 + n₂) (by omega)).mpr ⟨n₃, h₃, rfl⟩
    have hz₄ := (addPart_eq_some_iff (((0 * 256 + n₁) * 256 + n₂) * 256 + n₃)
      (by omega)).mpr ⟨n₄, h₄, rfl⟩
    simp only [zero_mul, zero_add] at hz₁ hz₂ hz₃ hz₄
    rw [ipv4ToNum, segments_address h₁.1 h₂.1 h₃.1 h₄.1, if_neg (by simp)]
    simp only [List.foldlM_cons, List.foldlM_nil, Option.bind_eq_bind, hz₁, hz₂, hz₃, hz₄,
      Option.bind_some, ha]
    rfl

/-! ## Masks -/

theorem ofInt_shiftLeft (x count : ℤ) :
    BitVec.ofInt 32 (shiftLeft x count) =
      BitVec.ofInt 32 x <<< ((BitVec.ofInt 32 count).toNat % 32) := by
  rw [shiftLeft, BitVec.ofInt_toInt]

theorem ofInt_unsignedShiftRight_zero (x : ℤ) :
    BitVec.ofInt 32 (unsignedShiftRight x 0) = BitVec.ofInt 32 x := by
  have hcount : (BitVec.ofInt 32 0).toNat % 32 = 0 := by decide
  rw [unsignedShiftRight, hcount, BitVec.ushiftRight_zero, BitVec.ofInt_natCast, BitVec.ofNat_toNat,
    BitVec.setWidth_eq]

/-- The mask of a prefix, which is not empty. -/
theorem ofInt_maskOf (hpos : n ≠ 0) (hle : n ≤ 32) :
    BitVec.ofInt 32 (maskOf n) = BitVec.allOnes 32 <<< (32 - n) := by
  have hones : BitVec.ofInt 32 0xffffffff = BitVec.allOnes 32 := by decide
  rw [maskOf]
  split_ifs with hfull
  · have hn : n = 32 := by exact_mod_cast hfull
    rw [hones, hn, Nat.sub_self, BitVec.shiftLeft_zero]
  · have hlt : n < 32 := by omega
    have hcount : (32 : ℤ) - n = (32 - n : ℕ) := by omega
    rw [ofInt_unsignedShiftRight_zero, ofInt_shiftLeft, hones, hcount, BitVec.ofInt_natCast,
      BitVec.toNat_ofNat, Nat.mod_eq_of_lt (show 32 - n < 2 ^ 32 by omega),
      Nat.mod_eq_of_lt (show 32 - n < 32 by omega)]

/-- A mask keeps the first bits. -/
theorem and_mask_eq_iff (hpos : n ≠ 0) (hle : n ≤ 32) :
    bitAnd a.toNat (maskOf n) = bitAnd b.toNat (maskOf n) ↔
      ∀ i < n, a.getMsbD i = b.getMsbD i := by
  rw [bitAnd, bitAnd, BitVec.toInt_inj, ofInt_maskOf hpos hle, BitVec.ofInt_natCast,
    BitVec.ofInt_natCast, BitVec.ofNat_toNat, BitVec.ofNat_toNat, BitVec.setWidth_eq,
    BitVec.setWidth_eq]
  have hbit (v : BitVec 32) (i : ℕ) :
      (v &&& BitVec.allOnes 32 <<< (32 - n)).getMsbD i = (v.getMsbD i && decide (i < n)) := by
    have hiff : i + (32 - n) < 32 ↔ i < n := by omega
    simp only [BitVec.getMsbD_and, BitVec.getMsbD_shiftLeft, BitVec.getMsbD_allOnes, hiff]
  constructor
  · intro h i hi
    have hsame := congrArg (fun v => BitVec.getMsbD v i) h
    simpa only [hbit, hi, decide_true, Bool.and_true] using hsame
  · intro h
    refine BitVec.eq_of_getMsbD_eq fun i hi => ?_
    rw [hbit, hbit]
    by_cases hin : i < n
    · rw [h i hin]
    · simp only [hin, decide_false, Bool.and_false]

/-! ## What is accepted -/

theorem IsAddress.ne_empty (h : IsAddress text a) : text ≠ "" := by
  obtain ⟨p₁, p₂, p₃, p₄, n₁, n₂, n₃, n₄, rfl, h₁, -, -, -, -⟩ := h
  intro hempty
  have hlist := congrArg String.toList hempty
  rw [toList_joinSegments_cons (List.cons_ne_nil _ _)] at hlist
  exact absurd hlist (by simp)

theorem IsDecimal.ne_empty (h : IsDecimal most text n) : text ≠ "" := by
  rintro rfl
  exact absurd h.nonempty (by simp)

theorem IsAddress.slash_notMem (h : IsAddress text a) : '/' ∉ text.toList := by
  obtain ⟨p₁, p₂, p₃, p₄, n₁, n₂, n₃, n₄, rfl, h₁, h₂, h₃, h₄, -⟩ := h
  intro hmem
  rcases mem_joinSegments hmem with hdot | ⟨part, hpart, hslash⟩
  · cases hdot
  · simp only [List.mem_cons, List.not_mem_nil, or_false] at hpart
    rcases hpart with rfl | rfl | rfl | rfl
    · exact h₁.1.slash_notMem hslash
    · exact h₂.1.slash_notMem hslash
    · exact h₃.1.slash_notMem hslash
    · exact h₄.1.slash_notMem hslash

/-- The tests of the length of a prefix. -/
theorem tests_iff {q : String} : (isDigits 2 q = true ∧ ¬ (digitsValue q < 0 ∨ 32 < digitsValue q)) ↔
    ∃ n, IsDecimal 2 q n ∧ n ≤ 32 := by
  constructor
  · rintro ⟨hdigits, hvalue⟩
    obtain ⟨n, hn, hle, -⟩ := isDecimal_of_tests 32 hdigits hvalue
    exact ⟨n, hn, hle⟩
  · rintro ⟨n, hn, hle⟩
    refine ⟨isDigits_iff.mpr ⟨n, hn⟩, ?_⟩
    rw [hn.digitsValue_eq]
    omega

theorem ipInCidr_iff :
    ipInCidr ip cidr = true ↔
      ∃ a base n, IsAddress ip a ∧ BeginsWithCidr cidr base n ∧ ∀ i < n, a.getMsbD i = base.getMsbD i := by
  constructor
  · intro h
    rw [ipInCidr] at h
    split at h
    · rename_i base q rest hparts
      cases hip : ipv4ToNum ip with
      | none => simp [hip] at h
      | some ipNum =>
          cases hbase : ipv4ToNum base with
          | none => simp [hbase] at h
          | some baseNum =>
              obtain ⟨a, ha, rfl⟩ := ipv4ToNum_eq_some_iff.mp hip
              obtain ⟨b, hb, rfl⟩ := ipv4ToNum_eq_some_iff.mp hbase
              rw [hip, hbase] at h
              dsimp only at h
              split_ifs at h with hempty hdigits hvalue hzero
              · -- a prefix of no bits asks nothing of the address
                obtain ⟨n, hn, hle⟩ := tests_iff.mp ⟨by simpa using hdigits, hvalue⟩
                rw [hn.digitsValue_eq] at hzero
                have hn0 : n = 0 := by exact_mod_cast hzero
                exact ⟨a, b, n, ha, ⟨base, q, rest, hparts, hb, hn, hle⟩, fun i hi => by omega⟩
              · obtain ⟨n, hn, hle⟩ := tests_iff.mp ⟨by simpa using hdigits, hvalue⟩
                rw [hn.digitsValue_eq] at hzero h
                exact ⟨a, b, n, ha, ⟨base, q, rest, hparts, hb, hn, hle⟩,
                  (and_mask_eq_iff (by exact_mod_cast hzero) hle).mp (of_decide_eq_true h)⟩
    · cases h
  · rintro ⟨a, b, n, ha, ⟨base, q, rest, hparts, hb, hn, hle⟩, hbits⟩
    -- the tests are passed in the order of the source
    have htests := tests_iff.mpr ⟨n, hn, hle⟩
    have hip := ipv4ToNum_eq_some_iff.mpr ⟨a, ha, rfl⟩
    have hbase := ipv4ToNum_eq_some_iff.mpr ⟨b, hb, rfl⟩
    rw [ipInCidr, hparts]
    dsimp only
    rw [if_neg (not_or_intro hb.ne_empty hn.ne_empty), if_neg (by simp [htests.1]), if_neg htests.2,
      hip, hbase]
    dsimp only
    rw [hn.digitsValue_eq]
    split_ifs with hzero
    · rfl
    · exact decide_eq_true ((and_mask_eq_iff (by exact_mod_cast hzero) hle).mpr hbits)

/-- The parts of an address, as `isValidCidr` tests them. -/
theorem isAddress_iff : (∃ a, IsAddress text a) ↔ (segments '.' text).length = 4 ∧
    ((segments '.' text).all fun part =>
      isDigits 3 part && !(digitsValue part < 0 || 255 < digitsValue part)) = true := by
  have hpart (part : String) :
      (isDigits 3 part && !(digitsValue part < 0 || 255 < digitsValue part)) = true ↔
        ∃ n, IsDecimal 3 part n ∧ n ≤ 255 := by
    simp only [Bool.and_eq_true, Bool.not_eq_true', Bool.or_eq_false_iff, decide_eq_false_iff_not]
    constructor
    · rintro ⟨hdigits, hneg, hlarge⟩
      obtain ⟨n, hn, hle, -⟩ := isDecimal_of_tests 255 hdigits (not_or_intro hneg hlarge)
      exact ⟨n, hn, hle⟩
    · rintro ⟨n, hn, hle⟩
      rw [hn.digitsValue_eq]
      exact ⟨isDigits_iff.mpr ⟨n, hn⟩, by omega, by omega⟩
  constructor
  · rintro ⟨a, p₁, p₂, p₃, p₄, n₁, n₂, n₃, n₄, rfl, h₁, h₂, h₃, h₄, -⟩
    rw [segments_address h₁.1 h₂.1 h₃.1 h₄.1]
    refine ⟨rfl, List.all_eq_true.mpr fun part hmem => (hpart part).mpr ?_⟩
    simp only [List.mem_cons, List.not_mem_nil, or_false] at hmem
    rcases hmem with rfl | rfl | rfl | rfl
    · exact ⟨n₁, h₁⟩
    · exact ⟨n₂, h₂⟩
    · exact ⟨n₃, h₃⟩
    · exact ⟨n₄, h₄⟩
  · rintro ⟨hlength, hall⟩
    obtain ⟨p₁, p₂, p₃, p₄, hparts⟩ := List.length_eq_four.mp hlength
    rw [hparts] at hall
    have hmem (part : String) (h : part ∈ [p₁, p₂, p₃, p₄]) : ∃ n, IsDecimal 3 part n ∧ n ≤ 255 :=
      (hpart part).mp (List.all_eq_true.mp hall part h)
    obtain ⟨n₁, h₁⟩ := hmem p₁ (by simp)
    obtain ⟨n₂, h₂⟩ := hmem p₂ (by simp)
    obtain ⟨n₃, h₃⟩ := hmem p₃ (by simp)
    obtain ⟨n₄, h₄⟩ := hmem p₄ (by simp)
    refine ⟨BitVec.ofNat 32 (((n₁ * 256 + n₂) * 256 + n₃) * 256 + n₄), p₁, p₂, p₃, p₄, n₁, n₂, n₃, n₄,
      ?_, h₁, h₂, h₃, h₄, ?_⟩
    · rw [← hparts, joinSegments_segments]
    · rw [BitVec.toNat_ofNat, Nat.mod_eq_of_lt (by omega)]

theorem isValidCidr_iff : isValidCidr cidr = true ↔ ∃ base n, BeginsWithCidr cidr base n := by
  constructor
  · intro h
    rw [isValidCidr] at h
    split at h
    · rename_i base q rest hparts
      split_ifs at h with hempty hdigits hvalue hlength
      obtain ⟨n, hn, hle⟩ := tests_iff.mp ⟨by simpa using hdigits, hvalue⟩
      obtain ⟨b, hb⟩ := isAddress_iff.mpr ⟨not_not.mp hlength, h⟩
      exact ⟨b, n, base, q, rest, hparts, hb, hn, hle⟩
    · cases h
  · rintro ⟨b, n, base, q, rest, hparts, hb, hn, hle⟩
    have htests := tests_iff.mpr ⟨n, hn, hle⟩
    obtain ⟨hlength, hall⟩ := isAddress_iff.mp ⟨b, hb⟩
    rw [isValidCidr, hparts]
    dsimp only
    rw [if_neg (not_or_intro hb.ne_empty hn.ne_empty), if_neg (by simp [htests.1]), if_neg htests.2,
      if_neg (not_not.mpr hlength), hall]

/-! ## Further slashes -/

theorem isCidr_iff :
    IsCidr text b n ↔
      ∃ p q, segments '/' text = [p, q] ∧ IsAddress p b ∧ IsDecimal 2 q n ∧ n ≤ 32 := by
  constructor
  · rintro ⟨p, q, rfl, hp, hq, hle⟩
    refine ⟨p, q, segments_joinSegments ?_ (List.cons_ne_nil _ _), hp, hq, hle⟩
    simp [hp.slash_notMem, hq.slash_notMem]
  · rintro ⟨p, q, hparts, hp, hq, hle⟩
    exact ⟨p, q, by rw [← hparts, joinSegments_segments], hp, hq, hle⟩

/-- A text that begins as a range is one, or a slash follows the range. -/
theorem beginsWithCidr_iff :
    BeginsWithCidr text b n ↔
      IsCidr text b n ∨ ∃ range rest, text = range ++ "/" ++ rest ∧ IsCidr range b n := by
  constructor
  · rintro ⟨p, q, rest, hparts, hp, hq, hle⟩
    by_cases hrest : rest = []
    · exact .inl (isCidr_iff.mpr ⟨p, q, hrest ▸ hparts, hp, hq, hle⟩)
    · refine .inr ⟨joinSegments '/' [p, q], joinSegments '/' rest, ?_, p, q, rfl, hp, hq, hle⟩
      -- what is behind the second slash is not looked at
      have hjoin : (joinSegments '/' ([p, q] ++ rest)).toList =
          (joinSegments '/' [p, q]).toList ++ '/' :: (joinSegments '/' rest).toList :=
        toList_joinSegments_append (List.cons_ne_nil _ _) hrest
      have hwhole : text = joinSegments '/' (p :: q :: rest) := by
        rw [← hparts, joinSegments_segments]
      apply String.toList_injective
      rw [hwhole]
      simpa using hjoin
  · rintro (h | ⟨range, rest, rfl, h⟩)
    · obtain ⟨p, q, hparts, hp, hq, hle⟩ := isCidr_iff.mp h
      exact ⟨p, q, [], hparts, hp, hq, hle⟩
    · obtain ⟨p, q, rfl, hp, hq, hle⟩ := h
      have hjoin : joinSegments '/' [p, q] ++ "/" ++ rest = joinSegments '/' [p, q, rest] := by
        apply String.toList_injective
        have happend : (joinSegments '/' ([p, q] ++ [rest])).toList =
            (joinSegments '/' [p, q]).toList ++ '/' :: (joinSegments '/' [rest]).toList :=
          toList_joinSegments_append (List.cons_ne_nil _ _) (List.cons_ne_nil _ _)
        rw [joinSegments_singleton] at happend
        simpa using happend.symm
      refine ⟨p, q, segments '/' rest, ?_, hp, hq, hle⟩
      rw [hjoin, segments_joinSegments_eq_flatMap (List.cons_ne_nil _ _)]
      simp [segments_of_notMem hp.slash_notMem, segments_of_notMem hq.slash_notMem]

/-- A text with a slash behind a range is no range. -/
theorem Continued.not_isCidr (h : Continued cidr) : ¬ IsCidr cidr b n := by
  obtain ⟨range, rest, base, m, rfl, p, q, rfl, hp, hq, -⟩ := h
  rintro ⟨p', q', heq, hp', hq', -⟩
  have hlists := congrArg String.toList heq
  rw [toList_joinSegments_cons (List.cons_ne_nil _ _), joinSegments_singleton] at hlists
  have hcut : p.toList ++ '/' :: (q.toList ++ '/' :: rest.toList) = p'.toList ++ '/' :: q'.toList := by
    rw [← hlists]
    have hrange : (joinSegments '/' [p, q]).toList = p.toList ++ '/' :: q.toList := by
      rw [toList_joinSegments_cons (List.cons_ne_nil _ _), joinSegments_singleton]
    simp [hrange]
  obtain ⟨-, hrest⟩ := append_cons_injective hp.slash_notMem hp'.slash_notMem hcut
  refine hq'.slash_notMem ?_
  rw [← hrest]
  simp

/-- Both functions know the grammar of ranges exactly if no slash follows a range. -/
theorem cidr_law (ip cidr : String) :
    (ipInCidr ip cidr = true ↔ Within ip cidr) ∧
      (isValidCidr cidr = true ↔ ∃ base n, IsCidr cidr base n) ↔ ¬ Continued cidr := by
  constructor
  · rintro ⟨-, hvalid⟩ hcontinued
    obtain ⟨range, rest, base, n, hcidr, hrange⟩ := id hcontinued
    obtain ⟨base', n', hbegins⟩ := hvalid.mp
      (isValidCidr_iff.mpr ⟨base, n, beginsWithCidr_iff.mpr (.inr ⟨range, rest, hcidr, hrange⟩)⟩)
    exact hcontinued.not_isCidr hbegins
  · intro hcontinued
    have hbegins (base : BitVec 32) (n : ℕ) : BeginsWithCidr cidr base n ↔ IsCidr cidr base n := by
      rw [beginsWithCidr_iff]
      refine or_iff_left ?_
      rintro ⟨range, rest, hcidr, hrange⟩
      exact hcontinued ⟨range, rest, base, n, hcidr, hrange⟩
    refine ⟨?_, ?_⟩
    · simp only [ipInCidr_iff, Within, hbegins]
    · simp only [isValidCidr_iff, hbegins]

/-- A text behind the range is ignored. -/
theorem continued_cidr_accepted :
    ipInCidr "10.1.2.3" "10.0.0.0/8/x" = true ∧ isValidCidr "10.0.0.0/8/x" = true ∧
      ¬ Within "10.1.2.3" "10.0.0.0/8/x" ∧ ¬ ∃ base n, IsCidr "10.0.0.0/8/x" base n := by
  have hnot (base : BitVec 32) (n : ℕ) : ¬ IsCidr "10.0.0.0/8/x" base n := fun h => by
    obtain ⟨p, q, hparts, -⟩ := isCidr_iff.mp h
    have hlength : (segments '/' "10.0.0.0/8/x").length = 3 := by decide +kernel
    rw [hparts] at hlength
    cases hlength
  refine ⟨by decide +kernel, by decide +kernel, ?_, fun ⟨base, n, h⟩ => hnot base n h⟩
  rintro ⟨-, base, n, -, h, -⟩
  exact hnot base n h

/-- The ends of the range of the lengths. -/
example : ipInCidr "203.0.113.7" "10.0.0.0/0" = true ∧
    ipInCidr "255.255.255.255" "255.255.255.255/32" = true ∧
    ipInCidr "255.255.255.254" "255.255.255.255/32" = false ∧
    ipInCidr "128.0.0.0" "0.0.0.0/1" = false := by
  decide +kernel

end ThinkLocal.Mesh
