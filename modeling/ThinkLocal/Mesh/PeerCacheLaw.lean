import ThinkLocal.Foundation.KeyedEntries
import ThinkLocal.Js.Doubles
import ThinkLocal.Js.JsonValues
import ThinkLocal.Mesh.PeerCache
import ThinkLocal.Spiffe.SpiffeUri

/-!
# The law of the cache

`parseCache` for every clock, lifetime and bound that a number can be, and `serializeCache` for
objects that have further fields.  What is read are the newest valid entries of the file, one of
each peer, as many as the bound allows; and of what is written the five fields are read.
-/

namespace ThinkLocal.Mesh.PeerCache

open Foundation Js

/-! ## Reading -/

/-- The two tests of `lastSeen` let an entry pass; a comparison with `NaN` does not stop it. -/
def InWindow (nowMs ttlMs : Number) (lastSeen : ℚ) : Prop :=
  ttlMs.lt (nowMs.sub (.finite lastSeen)) = false ∧
    (nowMs.add (.finite 60000)).lt (.finite lastSeen) = false

instance (nowMs ttlMs : Number) : DecidablePred (InWindow nowMs ttlMs) :=
  fun _ => inferInstanceAs (Decidable (_ ∧ _))

/-- One turn of the loop. -/
def keepNewest (nowMs ttlMs : Number) (byPeerId : InsertionMap String PeerCacheLocator)
    (rawEntry : Json) : InsertionMap String PeerCacheLocator :=
  match coerceLocator rawEntry with
  | none => byPeerId
  | some loc =>
      if ttlMs.lt (nowMs.sub (.finite loc.lastSeen)) then byPeerId
      else if (nowMs.add (.finite 60000)).lt (.finite loc.lastSeen) then byPeerId
      else
        match byPeerId.get loc.peerId with
        | none => byPeerId.set loc.peerId loc
        | some existing =>
            if existing.lastSeen < loc.lastSeen then byPeerId.set loc.peerId loc else byPeerId

/-- `list.slice(0, Math.max(0, cap))`. -/
def sliceTo (cap : Number) (list : List PeerCacheLocator) : List PeerCacheLocator :=
  match cap with
  | .nan | .negInfinity => []
  | .infinity => list
  | .finite q => list.take ⌊q⌋.toNat

def readEntries (nowMs ttlMs cap : Number) (entries : List Json) : List PeerCacheLocator :=
  let byPeerId := entries.foldl (keepNewest nowMs ttlMs) .empty
  sliceTo cap (byPeerId.values.insertionSort fun a b => b.lastSeen ≤ a.lastSeen)

/-- The entries of a document, if it has the form of one. -/
def entriesOf : Json → Option (List Json)
  | .object fields =>
      match isSchema (Json.fieldOf fields "schema"), Json.fieldOf fields "entries" with
      | true, some (.array entries) => some entries
      | _, _ => none
  | _ => none

def parseCache (raw : String) (nowMs ttlMs cap : Number) : List PeerCacheLocator :=
  match (Json.parse raw).bind entriesOf with
  | none => []
  | some entries => readEntries nowMs ttlMs cap entries

/-! ## Writing -/

/-- What is written of an object: its fields under the five keys. -/
def writtenFields (fields : List (String × Json)) : List (String × Json) :=
  ["peerId", "spiffeUri", "endpoint", "certFingerprint", "lastSeen"].filterMap fun key =>
    (Json.fieldOf fields key).map fun value => (key, value)

def serializeCache (locators : List (List (String × Json))) : String :=
  Json.stringify 2 (.object [("schema", .number peerCacheSchema),
    ("entries", .array (locators.map fun fields => .object (writtenFields fields)))])

/-! ## Valid entries -/

/-- An object that holds a locator, among other fields. -/
structure HoldsLocator (fields : List (String × Json)) (l : PeerCacheLocator) : Prop where
  peerId : Json.fieldOf fields "peerId" = some (.string l.peerId)
  spiffeUri : Json.fieldOf fields "spiffeUri" = some (.string l.spiffeUri)
  endpoint : Json.fieldOf fields "endpoint" = some (.string l.endpoint)
  certFingerprint : Json.fieldOf fields "certFingerprint" = some (.string l.certFingerprint)
  lastSeen : Json.fieldOf fields "lastSeen" = some (.number (.finite l.lastSeen))

/-- `https://host:port` with a port from 1 to 65535. -/
def HasPort (endpoint : String) : Prop :=
  ∃ host port, endpoint.toList = "https://".toList ++ (host ++ ':' :: port) ∧ host ≠ [] ∧
    (∀ c ∈ host, isWhiteSpace c = false ∧ c ≠ '/') ∧ port ≠ [] ∧ (∀ c ∈ port, c.isDigit = true) ∧
      1 ≤ Nat.ofDigitChars 10 port 0 ∧ Nat.ofDigitChars 10 port 0 ≤ 65535

/-- A valid locator of the entries of a file. -/
structure InFile (raw : String) (nowMs ttlMs : Number) (l : PeerCacheLocator) : Prop where
  entry : ∃ entries, (Json.parse raw).bind entriesOf = some entries ∧
    ∃ fields, .object fields ∈ entries ∧ HoldsLocator fields l
  wellFormed : l.WellFormed
  inWindow : InWindow nowMs ttlMs l.lastSeen

/-- The room of `slice(0, Math.max(0, cap))`. -/
def roomOf : Number → ℕ∞
  | .nan | .negInfinity => 0
  | .infinity => ⊤
  | .finite q => (⌊q⌋.toNat : ℕ)

variable {raw : String} {nowMs ttlMs cap : Number} {l : PeerCacheLocator}

theorem coerceLocator_eq_some_iff {rawEntry : Json} :
    coerceLocator rawEntry = some l ↔
      ∃ fields, rawEntry = .object fields ∧ HoldsLocator fields l ∧ l.WellFormed := by
  constructor
  · intro h
    cases rawEntry with
    | object fields =>
        rw [coerceLocator] at h
        split at h
        · split_ifs at h with hvalid
          obtain rfl := Option.some.inj h
          obtain ⟨hcanonical, hendpoint, hfingerprint, hseen⟩ := hvalid
          exact ⟨fields, rfl, by constructor <;> assumption,
            ⟨hcanonical, hendpoint, hfingerprint, hseen⟩⟩
        · cases h
    | _ => cases h
  · rintro ⟨fields, rfl, hholds, hwell⟩
    rw [coerceLocator, hholds.spiffeUri, hholds.peerId, hholds.endpoint, hholds.certFingerprint,
      hholds.lastSeen]
    exact if_pos ⟨hwell.canonical, hwell.endpoint, hwell.fingerprint, hwell.seen⟩

/-- The locators of the entries that the loop looks at. -/
def candidates (nowMs ttlMs : Number) (entries : List Json) : List PeerCacheLocator :=
  (entries.filterMap coerceLocator).filter fun l => InWindow nowMs ttlMs l.lastSeen

theorem keepNewest_eq (byPeerId : InsertionMap String PeerCacheLocator) (rawEntry : Json) :
    keepNewest nowMs ttlMs byPeerId rawEntry =
      (candidates nowMs ttlMs [rawEntry]).foldl
        (keepGreater PeerCacheLocator.peerId PeerCacheLocator.lastSeen) byPeerId := by
  unfold keepNewest candidates
  cases hloc : coerceLocator rawEntry with
  | none => simp [hloc]
  | some loc =>
      rw [List.filterMap_cons_some hloc, List.filterMap_nil]
      dsimp only
      split_ifs with hold hfuture
      · have hout : ¬ InWindow nowMs ttlMs loc.lastSeen := by simp [InWindow, hold]
        rw [List.filter_singleton, decide_eq_false hout]
        rfl
      · have hout : ¬ InWindow nowMs ttlMs loc.lastSeen := by simp [InWindow, hfuture]
        rw [List.filter_singleton, decide_eq_false hout]
        rfl
      · have hin : InWindow nowMs ttlMs loc.lastSeen :=
          ⟨Bool.eq_false_iff.mpr hold, Bool.eq_false_iff.mpr hfuture⟩
        rw [List.filter_singleton, decide_eq_true hin, cond_true, List.foldl_cons, List.foldl_nil,
          keepGreater]
        cases byPeerId.get loc.peerId with
        | none => rfl
        | some existing => simp only

theorem foldl_keepNewest (entries : List Json) (byPeerId : InsertionMap String PeerCacheLocator) :
    entries.foldl (keepNewest nowMs ttlMs) byPeerId =
      (candidates nowMs ttlMs entries).foldl
        (keepGreater PeerCacheLocator.peerId PeerCacheLocator.lastSeen) byPeerId := by
  induction entries generalizing byPeerId with
  | nil => rfl
  | cons rawEntry entries ih =>
      have hsplit : candidates nowMs ttlMs (rawEntry :: entries) =
          candidates nowMs ttlMs [rawEntry] ++ candidates nowMs ttlMs entries := by
        unfold candidates
        rw [← List.filter_append, ← List.filterMap_append, List.singleton_append]
      rw [List.foldl_cons, ih, keepNewest_eq, hsplit, List.foldl_append]

theorem mem_candidates_iff {entries : List Json} :
    l ∈ candidates nowMs ttlMs entries ↔
      (∃ fields, .object fields ∈ entries ∧ HoldsLocator fields l) ∧ l.WellFormed ∧
        InWindow nowMs ttlMs l.lastSeen := by
  simp only [candidates, List.mem_filter, List.mem_filterMap, decide_eq_true_eq,
    coerceLocator_eq_some_iff]
  constructor
  · rintro ⟨⟨_, hmem, fields, rfl, hholds, hwell⟩, hwindow⟩
    exact ⟨⟨fields, hmem, hholds⟩, hwell, hwindow⟩
  · rintro ⟨⟨fields, hmem, hholds⟩, hwell, hwindow⟩
    exact ⟨⟨_, hmem, fields, rfl, hholds, hwell⟩, hwindow⟩

/-- A slice of the items of a map is a selection of them. -/
theorem newestPerKey_sliceTo {m : InsertionMap String PeerCacheLocator}
    {items : List PeerCacheLocator}
    (h : HoldsNewest PeerCacheLocator.peerId PeerCacheLocator.lastSeen m items) (cap : Number) :
    NewestPerKey PeerCacheLocator.peerId PeerCacheLocator.lastSeen (· ∈ items) (roomOf cap)
      (sliceTo cap (m.values.insertionSort fun a b => b.lastSeen ≤ a.lastSeen)) := by
  unfold sliceTo roomOf
  cases cap with
  | nan | negInfinity => exact h.newestPerKey (n := 0) le_rfl (.inl rfl)
  | finite q => exact h.newestPerKey (n := ⌊q⌋.toNat) le_rfl (.inl rfl)
  | infinity =>
      have htop : (m.size : ℕ∞) ≤ ⊤ := le_top
      have hall := h.newestPerKey htop (.inr le_rfl)
      rwa [List.take_of_length_le] at hall
      rw [List.length_insertionSort]
      exact (List.length_map _).le

/-- What is read of the entries of a document. -/
theorem newestPerKey_readEntries (nowMs ttlMs cap : Number) (entries : List Json) :
    NewestPerKey PeerCacheLocator.peerId PeerCacheLocator.lastSeen
      (· ∈ candidates nowMs ttlMs entries) (roomOf cap) (readEntries nowMs ttlMs cap entries) := by
  unfold readEntries
  rw [foldl_keepNewest]
  exact newestPerKey_sliceTo (holdsNewest_foldl _) cap

/-- What is read of a text. -/
theorem newestPerKey_parseCache (raw : String) (nowMs ttlMs cap : Number) :
    NewestPerKey PeerCacheLocator.peerId PeerCacheLocator.lastSeen (InFile raw nowMs ttlMs)
      (roomOf cap) (parseCache raw nowMs ttlMs cap) := by
  unfold parseCache
  cases hentries : (Json.parse raw).bind entriesOf with
  | none =>
      have hnone : ∀ l, ¬ InFile raw nowMs ttlMs l := by
        rintro l ⟨⟨entries, hsome, -⟩, -⟩
        rw [hentries] at hsome
        cases hsome
      exact ⟨bot_le, List.nodup_nil, .nil, fun _ h => (nomatch h), fun _ h => (nomatch h),
        fun b hb => absurd hb (hnone b)⟩
  | some entries =>
      refine (newestPerKey_readEntries nowMs ttlMs cap entries).congr fun l => ?_
      rw [mem_candidates_iff]
      constructor
      · rintro ⟨hentry, hwell, hwindow⟩
        exact ⟨⟨entries, hentries, hentry⟩, hwell, hwindow⟩
      · rintro ⟨⟨entries', hsome, hentry⟩, hwell, hwindow⟩
        obtain rfl := Option.some.inj (hentries.symm.trans hsome)
        exact ⟨hentry, hwell, hwindow⟩

/-! ## The endpoint -/

theorem hasPort_of_isPlausibleEndpoint {text : String} (h : isPlausibleEndpoint text = true) :
    HasPort text := by
  unfold isPlausibleEndpoint at h
  split at h
  · cases h
  · next rest hrest =>
      dsimp only at h
      split at h
      · next host hhost =>
          simp only [decide_eq_true_eq, Bool.and_eq_true, Bool.not_eq_true',
            List.all_eq_true] at h
          obtain ⟨hne, hall, hdigits, -, hlow, hhigh⟩ := h
          have hsplit := List.takeWhile_append_dropWhile (p := Char.isDigit) (l := rest.reverse)
          rw [hhost] at hsplit
          have htext : rest = host.reverse ++ ':' :: (rest.reverse.takeWhile Char.isDigit).reverse := by
            have hreverse := congrArg List.reverse hsplit
            rw [List.reverse_reverse, List.reverse_append, List.reverse_cons, List.append_assoc]
              at hreverse
            exact hreverse.symm
          refine ⟨host.reverse, _, ?_, by simpa using hne, ?_, hdigits, ?_, hlow, hhigh⟩
          · rw [Spiffe.afterPrefix_eq_some.mp hrest, ← htext]
          · intro c hc
            have hchar := hall c (List.mem_reverse.mp hc)
            exact ⟨hchar.1, by simpa using hchar.2⟩
          · intro c hc
            exact List.mem_takeWhile_imp (List.mem_reverse.mp hc)
      · cases h

/-! ## Reading what was written -/

theorem writtenFields_eq {fields : List (String × Json)} (h : HoldsLocator fields l) :
    Json.object (writtenFields fields) = l.json := by
  unfold writtenFields PeerCacheLocator.json
  simp [h.peerId, h.spiffeUri, h.endpoint, h.certFingerprint, h.lastSeen]

/-- What is written depends only on the five fields. -/
theorem serializeCache_eq {objects : List (List (String × Json))}
    {locators : List PeerCacheLocator} (h : List.Forall₂ HoldsLocator objects locators) :
    serializeCache objects = Mesh.serializeCache locators := by
  have hitems : (objects.map fun fields => Json.object (writtenFields fields)) =
      locators.map PeerCacheLocator.json := by
    induction h with
    | nil => rfl
    | cons hhead _ ih => rw [List.map_cons, List.map_cons, ih, writtenFields_eq hhead]
  rw [serializeCache, Mesh.serializeCache, cacheDocument, hitems]

theorem inOrder_json (l : PeerCacheLocator) :
    Json.InOrder [("peerId", .string l.peerId), ("spiffeUri", .string l.spiffeUri),
      ("endpoint", .string l.endpoint), ("certFingerprint", .string l.certFingerprint),
      ("lastSeen", .number (.finite l.lastSeen))] := by
  have hkeys : Json.InOrder [("peerId", .null), ("spiffeUri", .null), ("endpoint", .null),
      ("certFingerprint", .null), ("lastSeen", .null)] := by decide
  exact ⟨hkeys.nodup, hkeys.sorted⟩

/-- A locator is read as it was written. -/
theorem reread_json (h : IsDouble l.lastSeen) : l.json.reread = l.json := by
  have hfields := (inOrder_json l).ofFields_eq
  rw [PeerCacheLocator.json, Json.reread]
  simp only [Json.rereadFields, Json.reread, value_literalOf h]
  rw [hfields]

theorem rereadItems_json {locators : List PeerCacheLocator}
    (h : ∀ l ∈ locators, IsDouble l.lastSeen) :
    Json.rereadItems (locators.map PeerCacheLocator.json) = locators.map PeerCacheLocator.json := by
  induction locators with
  | nil => rfl
  | cons l locators ih =>
      rw [List.forall_mem_cons] at h
      rw [List.map_cons, Json.rereadItems, reread_json h.1, ih h.2]

theorem reread_cacheDocument {locators : List PeerCacheLocator}
    (h : ∀ l ∈ locators, IsDouble l.lastSeen) :
    (cacheDocument locators).reread = cacheDocument locators := by
  have hkeys : Json.InOrder [("schema", .null), ("entries", .null)] := by decide
  have horder : Json.InOrder [("schema", .number (.finite 1)),
      ("entries", .array (locators.map PeerCacheLocator.json))] := ⟨hkeys.nodup, hkeys.sorted⟩
  have hone : (literalOf 1).decimal.value = .finite 1 := value_literalOf (by decide +kernel)
  rw [cacheDocument, Json.reread, peerCacheSchema, Number.ofInt]
  simp only [Json.rereadFields, Json.reread, rereadItems_json h, Int.cast_one, hone]
  rw [horder.ofFields_eq]

theorem entriesOf_cacheDocument (locators : List PeerCacheLocator) :
    entriesOf (cacheDocument locators) = some (locators.map PeerCacheLocator.json) := by
  have hschema : isSchema (Json.fieldOf [("schema", .number peerCacheSchema),
      ("entries", .array (locators.map PeerCacheLocator.json))] "schema") = true := rfl
  rw [cacheDocument, entriesOf, hschema]
  rfl

/-- The cache reads the locators that it wrote. -/
theorem parseCache_serializeCache {locators : List PeerCacheLocator}
    (h : ∀ l ∈ locators, IsDouble l.lastSeen) (nowMs ttlMs cap : Number) :
    parseCache (Mesh.serializeCache locators) nowMs ttlMs cap =
      readEntries nowMs ttlMs cap (locators.map PeerCacheLocator.json) := by
  rw [parseCache, Mesh.serializeCache, Json.parse_stringify, reread_cacheDocument h,
    Option.bind_some, entriesOf_cacheDocument]

theorem holdsLocator_json (l : PeerCacheLocator) :
    ∃ fields, l.json = .object fields ∧ HoldsLocator fields l :=
  ⟨_, rfl, rfl, rfl, rfl, rfl, rfl⟩

theorem coerceLocator_json (h : l.WellFormed) : coerceLocator l.json = some l := by
  obtain ⟨fields, hjson, hholds⟩ := holdsLocator_json l
  exact coerceLocator_eq_some_iff.mpr ⟨fields, hjson, hholds, h⟩

theorem candidates_json {locators : List PeerCacheLocator} (h : ∀ l ∈ locators, l.WellFormed) :
    candidates nowMs ttlMs (locators.map PeerCacheLocator.json) =
      locators.filter fun l => InWindow nowMs ttlMs l.lastSeen := by
  have hall : (locators.map PeerCacheLocator.json).filterMap coerceLocator = locators := by
    rw [List.filterMap_map]
    calc locators.filterMap (coerceLocator ∘ PeerCacheLocator.json) = locators.filterMap some :=
          List.filterMap_congr fun l hl => coerceLocator_json (h l hl)
      _ = locators := List.filterMap_some
  rw [candidates, hall]

/-! ## The window -/

theorem add_ofInt {now : ℤ} (h : |now + 60000| ≤ 2 ^ 53) :
    (Number.ofInt now).add (.finite 60000) = .ofInt (now + 60000) := by
  have hcast : (60000 : ℚ) = ((60000 : ℤ) : ℚ) := rfl
  rw [Number.ofInt, Number.add, hcast, ← Int.cast_add, roundDouble_intCast h]
  rfl

/-- Between integers that are doubles the window is the one that is written down. -/
theorem inWindow_intCast_iff {now ttl seen : ℤ} (hsum : |now + 60000| ≤ 2 ^ 53)
    (hdifference : |now - seen| ≤ 2 ^ 53) :
    InWindow (.ofInt now) (.ofInt ttl) seen ↔ now - ttl ≤ seen ∧ seen ≤ now + 60000 := by
  have hsub : (Number.ofInt now).sub (.finite seen) = .ofInt (now - seen) := by
    rw [Number.ofInt, Number.sub, ← Int.cast_sub, roundDouble_intCast hdifference]
    rfl
  rw [InWindow, hsub, add_ofInt hsum, Number.ofInt, Number.ofInt, Number.ofInt, Number.lt, Number.lt,
    decide_eq_false_iff_not, decide_eq_false_iff_not, not_lt, not_lt]
  norm_cast
  omega

/-! ## Natural numbers -/

section Naturals

variable {now ttl count : ℕ}

/-- A loop with clocks in milliseconds is the loop for all numbers at these. -/
theorem keepNewest_ofInt (h : now + 60000 ≤ 2 ^ 53)
    (byPeerId : InsertionMap String PeerCacheLocator) (rawEntry : Json) :
    keepNewest (.ofInt now) (.ofInt ttl) byPeerId rawEntry =
      Mesh.keepNewest now ttl byPeerId rawEntry := by
  have hsum : |(now : ℤ) + 60000| ≤ 2 ^ 53 := abs_le.mpr (by omega)
  unfold keepNewest Mesh.keepNewest
  rw [add_ofInt hsum]
  cases coerceLocator rawEntry with
  | none => rfl
  | some loc =>
      cases hget : byPeerId.get loc.peerId with
      | none =>
          simp only [hget, Number.lt, Number.ofInt, Number.sub, Int.cast_natCast, Int.cast_add,
            Int.cast_ofNat, decide_eq_true_eq]
      | some other =>
          simp only [hget, Number.lt, Number.ofInt, Number.sub, Int.cast_natCast, Int.cast_add,
            Int.cast_ofNat, decide_eq_true_eq]

theorem readEntries_ofInt (h : now + 60000 ≤ 2 ^ 53) (entries : List Json) :
    readEntries (.ofInt now) (.ofInt ttl) (.ofInt count) entries =
      Mesh.readEntries now ttl count entries := by
  have hloop : keepNewest (.ofInt now) (.ofInt ttl) = Mesh.keepNewest now ttl :=
    funext₂ (keepNewest_ofInt h)
  rw [readEntries, Mesh.readEntries, hloop, Number.ofInt, sliceTo, Int.floor_intCast,
    Int.toNat_natCast]

theorem readDocument_eq (doc : Json) :
    readDocument now ttl count doc = ((entriesOf doc).map (Mesh.readEntries now ttl count)).getD [] := by
  unfold readDocument entriesOf
  cases doc with
  | object fields =>
      dsimp only
      cases isSchema (Json.fieldOf fields "schema") with
      | false => rfl
      | true =>
          cases Json.fieldOf fields "entries" with
          | none => rfl
          | some entries => cases entries <;> rfl
  | _ => rfl

/-- With clocks in milliseconds and a natural bound this is the reader of the restarts. -/
theorem parseCache_ofInt (raw : String) (h : now + 60000 ≤ 2 ^ 53) :
    parseCache raw (.ofInt now) (.ofInt ttl) (.ofInt count) =
      Mesh.parseCache raw now ttl count := by
  unfold parseCache Mesh.parseCache
  cases Json.parse raw with
  | none => rfl
  | some doc =>
      rw [Option.bind_some]
      dsimp only
      rw [readDocument_eq]
      cases entriesOf doc with
      | none => rfl
      | some entries => exact readEntries_ofInt h entries

end Naturals

/-! ## The law -/

/-- As many as there is room for are at most `max(0, cap)`. -/
theorem le_roomOf_iff {n : ℕ} {q : ℚ} : (n : ℕ∞) ≤ roomOf (.finite q) ↔ (n : ℚ) ≤ max 0 q := by
  rw [roomOf, Nat.cast_le]
  constructor
  · intro h
    rcases Nat.eq_zero_or_pos n with rfl | hpos
    · exact le_max_of_le_left (by norm_num)
    · have hfloor : (n : ℤ) ≤ ⌊q⌋ := by omega
      exact le_max_of_le_right (by exact_mod_cast Int.le_floor.mp hfloor)
  · intro h
    rcases le_max_iff.mp h with hzero | hq
    · have hn : n = 0 := by exact_mod_cast le_antisymm hzero n.cast_nonneg
      omega
    · have hfloor : (n : ℤ) ≤ ⌊q⌋ := Int.le_floor.mpr (by exact_mod_cast hq)
      omega

/-- What is read is a selection of the valid entries of the file, and of what was written nothing
but the five fields. -/
theorem parseCache_law :
    (∀ raw nowMs ttlMs cap,
      NewestPerKey PeerCacheLocator.peerId PeerCacheLocator.lastSeen (InFile raw nowMs ttlMs)
          (roomOf cap) (parseCache raw nowMs ttlMs cap) ∧
        (∀ q, cap = .finite q → ((parseCache raw nowMs ttlMs cap).length : ℚ) ≤ max 0 q) ∧
        ∀ l ∈ parseCache raw nowMs ttlMs cap,
          l.spiffeUri = peerIdToSpiffeUri l.peerId ∧ HasPort l.endpoint) ∧
      (∀ now ttl seen : ℤ, |now + 60000| ≤ 2 ^ 53 → |now - seen| ≤ 2 ^ 53 →
        (InWindow (.ofInt now) (.ofInt ttl) seen ↔ now - ttl ≤ seen ∧ seen ≤ now + 60000)) ∧
      ∀ objects locators, List.Forall₂ HoldsLocator objects locators →
        (∀ l ∈ locators, l.WellFormed ∧ IsDouble l.lastSeen) →
          serializeCache objects = Mesh.serializeCache locators ∧
            ∀ nowMs ttlMs cap, NewestPerKey PeerCacheLocator.peerId PeerCacheLocator.lastSeen
              (fun l => l ∈ locators ∧ InWindow nowMs ttlMs l.lastSeen) (roomOf cap)
              (parseCache (serializeCache objects) nowMs ttlMs cap) := by
  refine ⟨fun raw nowMs ttlMs cap => ?_, fun now ttl seen => inWindow_intCast_iff,
    fun objects locators hobjects hvalid => ?_⟩
  · have hnewest := newestPerKey_parseCache raw nowMs ttlMs cap
    refine ⟨hnewest, fun q hq => ?_, fun l hl => ?_⟩
    · rw [← le_roomOf_iff, ← hq]
      exact hnewest.length
    · have hwell := (hnewest.valid l hl).wellFormed
      exact ⟨(spiffeUriToPeerId_eq_some_iff.mp hwell.canonical).1,
        hasPort_of_isPlausibleEndpoint hwell.endpoint⟩
  · have hwritten := serializeCache_eq hobjects
    refine ⟨hwritten, fun nowMs ttlMs cap => ?_⟩
    rw [hwritten, parseCache_serializeCache fun l hl => (hvalid l hl).2]
    refine (newestPerKey_readEntries nowMs ttlMs cap _).congr fun l => ?_
    rw [candidates_json fun l hl => (hvalid l hl).1, List.mem_filter, decide_eq_true_eq]

/-! ## Samples -/

/-- A locator that the reader accepts. -/
def sampleLocator (peerId : String) (lastSeen : ℚ) : PeerCacheLocator :=
  ⟨peerId, peerIdToSpiffeUri peerId, "https://10.0.0.2:9440",
    String.ofList (List.replicate 64 'a'), lastSeen⟩

/-- The object of a locator with a key beside it. -/
def sampleObject : List (String × Json) :=
  [("publicKey", .string "secret"), ("peerId", .string "A"),
    ("spiffeUri", .string (peerIdToSpiffeUri "A")), ("endpoint", .string "https://10.0.0.2:9440"),
    ("certFingerprint", .string (String.ofList (List.replicate 64 'a'))),
    ("lastSeen", .number (.finite 500))]

theorem wellFormed_sampleLocator {peerId : String} {lastSeen : ℚ}
    (hpeer : isPeerIdText peerId.toList = true) (hseen : 0 < lastSeen) :
    (sampleLocator peerId lastSeen).WellFormed := by
  have hendpoint : isPlausibleEndpoint "https://10.0.0.2:9440" = true := by decide +kernel
  have hfingerprint : isPlausibleFingerprint (String.ofList (List.replicate 64 'a')) = true := by
    decide +kernel
  exact ⟨spiffeUriToPeerId_eq_some_iff.mpr ⟨rfl, hpeer⟩, hendpoint, hfingerprint, hseen⟩

/-- The key of an object is not written. -/
theorem parseCache_law_sampleObject :
    serializeCache [sampleObject] = Mesh.serializeCache [sampleLocator "A" 500] ∧
      NewestPerKey PeerCacheLocator.peerId PeerCacheLocator.lastSeen
        (fun l => l ∈ [sampleLocator "A" 500] ∧ InWindow (.ofInt 1000) (.ofInt 600) l.lastSeen)
        (roomOf (.ofInt 5))
        (parseCache (serializeCache [sampleObject]) (.ofInt 1000) (.ofInt 600) (.ofInt 5)) := by
  have hholds : HoldsLocator sampleObject (sampleLocator "A" 500) := ⟨rfl, rfl, rfl, rfl, rfl⟩
  have hlaw := parseCache_law.2.2 [sampleObject] [sampleLocator "A" 500] (.cons hholds .nil) (by
    intro l hl
    obtain rfl := List.mem_singleton.mp hl
    exact ⟨wellFormed_sampleLocator (by decide) (by norm_num [sampleLocator]), by decide +kernel⟩)
  exact ⟨hlaw.1, hlaw.2 _ _ _⟩

/-- Of two peers that were seen at the same time one is left out for none that is newer; and a
difference that is rounded lets an entry pass that is too old. -/
theorem peer_left_out_for_equal :
    (parseCache (Mesh.serializeCache [sampleLocator "A" 500, sampleLocator "B" 500])
        (.ofInt 1000) (.ofInt 600) (.ofInt 1) = [sampleLocator "A" 500] ∧
      InFile (Mesh.serializeCache [sampleLocator "A" 500, sampleLocator "B" 500])
        (.ofInt 1000) (.ofInt 600) (sampleLocator "B" 500)) ∧
      parseCache (Mesh.serializeCache [sampleLocator "A" (1 - 1 / 2 ^ 53)])
        (.ofInt 3) (.ofInt 2) (.ofInt 1) = [sampleLocator "A" (1 - 1 / 2 ^ 53)] ∧
      ¬ (3 - 2 : ℚ) ≤ 1 - 1 / 2 ^ 53 := by
  have hdouble : ∀ l ∈ [sampleLocator "A" 500, sampleLocator "B" 500], IsDouble l.lastSeen := by
    decide +kernel
  have hdouble' : ∀ l ∈ [sampleLocator "A" (1 - 1 / 2 ^ 53)], IsDouble l.lastSeen := by
    decide +kernel
  refine ⟨⟨?_, ?_⟩, ?_, by norm_num⟩
  · rw [parseCache_serializeCache hdouble]
    decide +kernel
  · obtain ⟨fields, hjson, hholds⟩ := holdsLocator_json (sampleLocator "B" 500)
    refine ⟨⟨[sampleLocator "A" 500, sampleLocator "B" 500].map PeerCacheLocator.json, ?_, fields,
      hjson ▸ List.mem_map_of_mem (by simp), hholds⟩,
      wellFormed_sampleLocator (by decide) (by norm_num [sampleLocator]), by decide +kernel⟩
    rw [Mesh.serializeCache, Json.parse_stringify, reread_cacheDocument hdouble, Option.bind_some,
      entriesOf_cacheDocument]
  · rw [parseCache_serializeCache hdouble']
    decide +kernel

end ThinkLocal.Mesh.PeerCache
