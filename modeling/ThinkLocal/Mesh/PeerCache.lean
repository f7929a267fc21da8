import Mathlib.Data.List.Sort
import ThinkLocal.Js.Json
import ThinkLocal.Js.Text
import ThinkLocal.Mesh.MeshManager

/-!
# The cache of peers

The locators of `peer-cache.ts`: what `exportSeenLocators` takes from the manager, the text that is
written, and what of a text is read.  The reader checks every field; it does not throw.
-/

namespace ThinkLocal.Mesh

open Foundation Js

def peerCacheTtlMs : Nat := 14 * 24 * 60 * 60000

def peerCacheMax : Nat := 512

/-- A locator; `lastSeen` is a finite number. -/
structure PeerCacheLocator where
  peerId : String
  spiffeUri : String
  endpoint : String
  certFingerprint : String
  lastSeen : ℚ
deriving DecidableEq

/-! ## Fields -/

/-- `https://`, a host without blanks and slashes, and a port. -/
def isPlausibleEndpoint (text : String) : Bool :=
  match afterPrefix "https://".toList text.toList with
  | none => false
  | some rest =>
      let digits := (rest.reverse.takeWhile Char.isDigit).reverse
      let port := Nat.ofDigitChars 10 digits 0
      match rest.reverse.dropWhile Char.isDigit with
      | ':' :: host =>
          host ≠ [] ∧ (host.all fun c => ! isWhiteSpace c && c ≠ '/') ∧ digits ≠ [] ∧
            digits.length ≤ 5 ∧ 1 ≤ port ∧ port ≤ 65535
      | _ => false

def isHexDigit (c : Char) : Bool :=
  c.isDigit || ('a' ≤ c && c ≤ 'f') || ('A' ≤ c && c ≤ 'F')

/-- 64 hexadecimal digits. -/
def isPlausibleFingerprint (text : String) : Bool :=
  text.toList.length = 64 ∧ text.toList.all isHexDigit

def coerceLocator : Json → Option PeerCacheLocator
  | .object fields =>
      match Json.fieldOf fields "spiffeUri", Json.fieldOf fields "peerId",
        Json.fieldOf fields "endpoint", Json.fieldOf fields "certFingerprint",
        Json.fieldOf fields "lastSeen" with
      | some (.string spiffeUri), some (.string peerId), some (.string endpoint),
        some (.string certFingerprint), some (.number (.finite lastSeen)) =>
          if spiffeUriToPeerId spiffeUri = some peerId ∧ isPlausibleEndpoint endpoint ∧
              isPlausibleFingerprint certFingerprint ∧ 0 < lastSeen then
            some ⟨peerId, spiffeUri, endpoint, certFingerprint, lastSeen⟩
          else none
      | _, _, _, _, _ => none
  | _ => none

/-! ## Writing -/

def PeerCacheLocator.json (l : PeerCacheLocator) : Json :=
  .object [("peerId", .string l.peerId), ("spiffeUri", .string l.spiffeUri),
    ("endpoint", .string l.endpoint), ("certFingerprint", .string l.certFingerprint),
    ("lastSeen", .number (.finite l.lastSeen))]

def peerCacheSchema : Number := .ofInt 1

/-- The document of the file. -/
def cacheDocument (locators : List PeerCacheLocator) : Json :=
  .object [("schema", .number peerCacheSchema),
    ("entries", .array (locators.map PeerCacheLocator.json))]

def serializeCache (locators : List PeerCacheLocator) : String :=
  Json.stringify 2 (cacheDocument locators)

/-- The locator of an entry. -/
def locatorOf (entry : AuthenticatedSeenEntry) : PeerCacheLocator :=
  ⟨entry.peerId, entry.spiffeUri, entry.endpoint, entry.certFingerprint, entry.lastSeen⟩

/-- `exportSeenLocators`: the locators of the canonical entries. -/
def exportSeenLocators (m : MeshManager) : List PeerCacheLocator :=
  (m.authenticatedSeen.values.filter fun e => (spiffeUriToPeerId e.spiffeUri).isSome).map locatorOf

/-- The locators by their PeerIDs; of one peer the live locator counts. -/
def mergeLocators (live loaded : List PeerCacheLocator) : List PeerCacheLocator :=
  ((loaded ++ live).foldl (fun byPeerId l => byPeerId.set l.peerId l)
    (.empty : InsertionMap String PeerCacheLocator)).values

/-! ## Reading -/

/-- One turn of the loop of `parseCache`. -/
def keepNewest (nowMs ttlMs : Nat) (byPeerId : InsertionMap String PeerCacheLocator)
    (rawEntry : Json) : InsertionMap String PeerCacheLocator :=
  match coerceLocator rawEntry with
  | none => byPeerId
  | some loc =>
      if (Number.ofInt ttlMs).lt (roundDouble (nowMs - loc.lastSeen)) then byPeerId
      else if (nowMs : ℚ) + 60000 < loc.lastSeen then byPeerId
      else
        match byPeerId.get loc.peerId with
        | none => byPeerId.set loc.peerId loc
        | some existing =>
            if existing.lastSeen < loc.lastSeen then byPeerId.set loc.peerId loc else byPeerId

def isSchema : Option Json → Bool
  | some (.number version) => version = peerCacheSchema
  | _ => false

/-- The entries of a document that are read. -/
def readEntries (nowMs ttlMs cap : Nat) (entries : List Json) : List PeerCacheLocator :=
  let byPeerId := entries.foldl (keepNewest nowMs ttlMs) .empty
  (byPeerId.values.insertionSort fun a b => b.lastSeen ≤ a.lastSeen).take cap

/-- A document of the cache. -/
def readDocument (nowMs ttlMs cap : Nat) : Json → List PeerCacheLocator
  | .object fields =>
      match isSchema (Json.fieldOf fields "schema"), Json.fieldOf fields "entries" with
      | true, some (.array entries) => readEntries nowMs ttlMs cap entries
      | _, _ => []
  | _ => []

def parseCache (raw : String) (nowMs ttlMs cap : Nat) : List PeerCacheLocator :=
  match Json.parse raw with
  | none => []
  | some doc => readDocument nowMs ttlMs cap doc

/-! ## What is read -/

variable {raw : String} {nowMs ttlMs cap : Nat} {l : PeerCacheLocator}

/-- What the reader demands of a locator. -/
structure PeerCacheLocator.WellFormed (l : PeerCacheLocator) : Prop where
  canonical : spiffeUriToPeerId l.spiffeUri = some l.peerId
  endpoint : isPlausibleEndpoint l.endpoint = true
  fingerprint : isPlausibleFingerprint l.certFingerprint = true
  seen : 0 < l.lastSeen

theorem wellFormed_of_coerceLocator {rawEntry : Json} (h : coerceLocator rawEntry = some l) :
    l.WellFormed := by
  cases rawEntry with
  | object fields =>
      rw [coerceLocator] at h
      split at h
      · split_ifs at h with hfields
        obtain rfl := Option.some.inj h
        obtain ⟨hcanonical, hendpoint, hfingerprint, hseen⟩ := hfields
        exact ⟨hcanonical, hendpoint, hfingerprint, hseen⟩
      · cases h
  | _ => cases h

/-- The map of the loop holds well-formed locators. -/
theorem wellFormed_keepNewest {byPeerId : InsertionMap String PeerCacheLocator}
    (h : ∀ l ∈ byPeerId.values, l.WellFormed) (rawEntry : Json) :
    ∀ l ∈ (keepNewest nowMs ttlMs byPeerId rawEntry).values, l.WellFormed := by
  unfold keepNewest
  split
  · exact h
  · next loc hloc =>
      have hset : ∀ l ∈ (byPeerId.set loc.peerId loc).values, l.WellFormed := by
        intro l hl
        obtain ⟨key, hget⟩ := InsertionMap.mem_values_iff.mp hl
        rw [InsertionMap.get_set] at hget
        split at hget
        · obtain rfl := Option.some.inj hget
          exact wellFormed_of_coerceLocator hloc
        · exact h l (InsertionMap.mem_values_iff.mpr ⟨key, hget⟩)
      split_ifs
      · exact h
      · exact h
      · split
        · exact hset
        · split_ifs
          · exact hset
          · exact h

theorem wellFormed_foldl (entries : List Json) {byPeerId : InsertionMap String PeerCacheLocator}
    (h : ∀ l ∈ byPeerId.values, l.WellFormed) :
    ∀ l ∈ (entries.foldl (keepNewest nowMs ttlMs) byPeerId).values, l.WellFormed := by
  induction entries generalizing byPeerId with
  | nil => exact h
  | cons rawEntry entries ih => exact ih (wellFormed_keepNewest h rawEntry)

theorem wellFormed_of_mem_readEntries {entries : List Json}
    (h : l ∈ readEntries nowMs ttlMs cap entries) : l.WellFormed := by
  have hsorted := (List.mem_insertionSort _).mp (List.mem_of_mem_take h)
  have hempty : ∀ l ∈ (.empty : InsertionMap String PeerCacheLocator).values, l.WellFormed :=
    fun _ hl => nomatch hl
  exact wellFormed_foldl entries hempty l hsorted

/-- Every locator that is read is well formed. -/
theorem wellFormed_of_mem_parseCache (h : l ∈ parseCache raw nowMs ttlMs cap) : l.WellFormed := by
  unfold parseCache readDocument at h
  split at h
  · cases h
  · split at h
    · split at h
      · exact wellFormed_of_mem_readEntries h
      · cases h
    · cases h

end ThinkLocal.Mesh
