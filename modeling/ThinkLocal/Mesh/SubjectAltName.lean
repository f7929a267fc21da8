import ThinkLocal.Foundation.Segments
import ThinkLocal.Js.Data
import ThinkLocal.Js.Text
import ThinkLocal.Mesh.PeerIdentity

/-!
# Subject alternative names

A certificate carries its alternative names as a list, but the daemon reads them from the text that
`getPeerCertificate` renders.  A name that could be mistaken for more than one entry stands there in
quotation marks, its commas as escapes, so cutting the text at the commas gives the entries back.
-/

namespace ThinkLocal.Mesh

open Foundation Js

/-! ## The rendering of a certificate -/

inductive AltNameType
  | otherName
  | email
  | dns
  | uri
  | dirName
  | ipAddress
  | registeredId
deriving DecidableEq

def AltNameType.label : AltNameType → String
  | otherName => "othername"
  | email => "email"
  | dns => "DNS"
  | uri => "URI"
  | dirName => "DirName"
  | ipAddress => "IP Address"
  | registeredId => "Registered ID"

/-- Is the value a text in UTF-8, and not one of single bytes? -/
def AltNameType.isUtf8 (type : AltNameType) : Bool := type = .otherName

/-- The characters of a value of single bytes are those of Latin-1. -/
structure AltName where
  type : AltNameType
  value : String
deriving DecidableEq

/-- A character that is written as it is. -/
def isPlainChar (utf8 : Bool) (c : Char) : Bool :=
  (' ' ≤ c ∧ c ≤ '~') || (utf8 && 128 ≤ c.toNat)

/-- `IsSafeAltName`: no character could be taken for the end of the value. -/
def isSafeAltName (utf8 : Bool) (value : List Char) : Bool :=
  value.all fun c => isPlainChar utf8 c && c ∉ ['"', '\\', ',', '\'']

/-- A character between quotation marks. -/
def escapedChar (utf8 : Bool) (c : Char) : List Char :=
  if c = '\\' then ['\\', '\\']
  else if c = '"' then ['\\', '"']
  else if isPlainChar utf8 c ∧ c ≠ ',' then [c]
  else
    ['\\', 'u', Data.hexDigit (c.toNat / 4096 % 16), Data.hexDigit (c.toNat / 256 % 16),
      Data.hexDigit (c.toNat / 16 % 16), Data.hexDigit (c.toNat % 16)]

/-- `PrintAltName`: a value that is not safe is written as a JSON text. -/
def printAltName (utf8 : Bool) (value : List Char) : List Char :=
  if isSafeAltName utf8 value then value else '"' :: value.flatMap (escapedChar utf8) ++ ['"']

def AltName.text (name : AltName) : List Char :=
  name.type.label.toList ++ ':' :: printAltName name.type.isUtf8 name.value.toList

/-- The `subjectaltname` of a certificate, which one without alternative names does not have. -/
def subjectaltname (names : List AltName) : Option String :=
  if names = [] then none
  else some (String.ofList ([',', ' '].intercalate (names.map AltName.text)))

/-! ## Reading it -/

/-- The URI of a trimmed part, if it is a SPIFFE URI. -/
def spiffeUriOfTrimmed (t : List Char) : Option String :=
  if "URI:spiffe://".toList <+: t then some (String.ofList (t.drop 4)) else none

def spiffeUriOfPart (part : String) : Option String := spiffeUriOfTrimmed (trim part).toList

def spiffeUrisFromSubjectAltName (subjectAltName : Option String) : List String :=
  match subjectAltName.filter fun text => text ≠ "" with
  | none => []
  | some text => (segments ',' text).filterMap spiffeUriOfPart

/-- What the sockets of `mcp-ingress-api.ts` give. -/
structure PeerCertSocket where
  authorized : Bool
  subjectaltname : Option String

/-- `extractCanonicalSender` of `mcp-ingress-api.ts`. -/
def extractCanonicalSender (socket : PeerCertSocket) : Option String :=
  if socket.authorized then
    (spiffeUrisFromSubjectAltName socket.subjectaltname).find? fun uri =>
      (spiffeUriToPeerId uri).isSome
  else none

/-! ## The entries are read back -/

/-- The SPIFFE URI of an entry: the value of a URI that is not quoted, without the blanks at its
end. -/
def AltName.spiffeUri (name : AltName) : Option String :=
  if name.type = .uri ∧ isSafeAltName false name.value.toList ∧
      "spiffe://".toList <+: name.value.toList then
    some (String.ofList (trimEnd name.value.toList))
  else none

variable {names : List AltName} {name : AltName}

theorem comma_notMem_escapedChar (utf8 : Bool) (c : Char) : ',' ∉ escapedChar utf8 c := by
  have hdigit : ∀ n < 16, Data.hexDigit n ≠ ',' := by decide
  have hmod : ∀ n, Data.hexDigit (n % 16) ≠ ',' := fun n => hdigit _ (Nat.mod_lt n (by omega))
  unfold escapedChar
  split_ifs with hback hquote hplain
  · decide
  · decide
  · simpa using Ne.symm hplain.2
  · simp [(hmod _).symm]

theorem comma_notMem_printAltName (utf8 : Bool) (value : List Char) :
    ',' ∉ printAltName utf8 value := by
  unfold printAltName
  split_ifs with hsafe
  · intro hmem
    have hcomma := List.all_eq_true.mp hsafe ',' hmem
    simp at hcomma
  · intro hmem
    rw [List.cons_append, List.mem_cons, List.mem_append, List.mem_flatMap] at hmem
    rcases hmem with h | ⟨c, -, hc⟩ | h
    · cases h
    · exact comma_notMem_escapedChar utf8 c hc
    · cases List.mem_singleton.mp h

/-- An entry has no comma. -/
theorem comma_notMem_text (name : AltName) : ',' ∉ name.text := by
  have hlabel : ',' ∉ name.type.label.toList := by
    cases name.type <;> decide
  rw [AltName.text, List.mem_append, List.mem_cons, not_or, not_or]
  exact ⟨hlabel, by decide, comma_notMem_printAltName _ _⟩

/-- Entries joined by comma and blank, cut at the commas. -/
theorem segments_intercalate {parts : List (List Char)} (first : List Char)
    (hfirst : ',' ∉ first) (hparts : ∀ part ∈ parts, ',' ∉ part) :
    segments ',' (String.ofList ([',', ' '].intercalate (first :: parts))) =
      String.ofList first :: parts.map fun part => String.ofList (' ' :: part) := by
  have hjoin : ∀ (parts : List (List Char)) (first : List Char),
      [',', ' '].intercalate (first :: parts) =
        [','].intercalate (first :: parts.map fun part => ' ' :: part) := by
    intro parts
    induction parts with
    | nil => exact fun _ => rfl
    | cons part parts ih =>
        intro first
        rw [List.map_cons, List.intercalate_cons_cons, List.intercalate_cons_cons, ih]
        cases parts <;> simp [List.intercalate]
  have hlists : ∀ part ∈ first :: parts.map (fun part => ' ' :: part), ',' ∉ part := by
    intro part hpart
    rcases List.mem_cons.mp hpart with rfl | hmem
    · exact hfirst
    · obtain ⟨part', hpart', rfl⟩ := List.mem_map.mp hmem
      simpa using hparts part' hpart'
  rw [segments, String.toList_ofList, hjoin, List.splitOn_intercalate ',' hlists (by simp)]
  simp [Function.comp_def]

theorem spiffeUriOfPart_blank (part : List Char) :
    spiffeUriOfPart (String.ofList (' ' :: part)) = spiffeUriOfPart (String.ofList part) := by
  have htrim : trim (String.ofList (' ' :: part)) = trim (String.ofList part) := by
    rw [trim_eq, trim_eq, String.toList_ofList, String.toList_ofList, List.dropWhile_cons_of_pos]
    decide
  rw [spiffeUriOfPart, htrim, spiffeUriOfPart]

/-- No white space stands before an entry. -/
theorem trim_text (name : AltName) : trim (String.ofList name.text) = String.ofList (trimEnd name.text) := by
  rw [trim_eq, String.toList_ofList]
  congr 2
  unfold AltName.text
  cases name.type <;> exact List.dropWhile_cons_of_neg (by decide)

theorem uriSpiffe_eq : "URI:spiffe://".toList = "URI".toList ++ ':' :: "spiffe://".toList := by
  decide

/-- White space is cut off behind the scheme only. -/
theorem trimEnd_spiffe (start rest : List Char) :
    trimEnd (start ++ ("spiffe://".toList ++ rest)) =
      start ++ ("spiffe://".toList ++ trimEnd rest) := by
  have hscheme : ∀ rest, start ++ ("spiffe://".toList ++ rest) =
      (start ++ "spiffe:/".toList) ++ '/' :: rest := by
    intro rest
    have hsplit : "spiffe://".toList = "spiffe:/".toList ++ ['/'] := by decide
    rw [hsplit]
    simp
  rw [hscheme, hscheme, trimEnd_append (by decide)]

/-- An entry that begins like a SPIFFE URI is a URI that is not quoted. -/
theorem begins_iff (name : AltName) :
    "URI:spiffe://".toList <+: name.text ↔
      name.type = .uri ∧ isSafeAltName false name.value.toList ∧
        "spiffe://".toList <+: name.value.toList := by
  obtain ⟨type, value⟩ := name
  cases type with
  | uri =>
      have hbegins : "URI:spiffe://".toList <+: AltName.text ⟨.uri, value⟩ ↔
          "spiffe://".toList <+: printAltName false value.toList := by
        rw [uriSpiffe_eq, AltName.text]
        exact (List.prefix_append_right_inj "URI".toList).trans (List.prefix_cons_inj ':')
      rw [hbegins, printAltName]
      by_cases hsafe : isSafeAltName false value.toList = true
      · rw [if_pos hsafe]
        simp [hsafe]
      · rw [if_neg hsafe]
        simp [hsafe, List.cons_prefix_cons]
  | otherName | email | dns | dirName | ipAddress | registeredId =>
      simp [AltName.text, AltNameType.label, List.cons_prefix_cons]

/-- The text of a URI that is not quoted. -/
theorem text_of_uri {rest : List Char} (htype : name.type = .uri)
    (hsafe : isSafeAltName false name.value.toList = true)
    (hvalue : name.value.toList = "spiffe://".toList ++ rest) :
    name.text = "URI:".toList ++ ("spiffe://".toList ++ rest) := by
  have hprint : printAltName name.type.isUtf8 name.value.toList = name.value.toList := by
    rw [htype]
    exact if_pos hsafe
  rw [AltName.text, hprint, hvalue, htype]
  rfl

theorem spiffeUriOfPart_text (name : AltName) :
    spiffeUriOfPart (String.ofList name.text) = name.spiffeUri := by
  rw [spiffeUriOfPart, trim_text, String.toList_ofList, spiffeUriOfTrimmed, AltName.spiffeUri]
  by_cases h : name.type = .uri ∧ isSafeAltName false name.value.toList ∧
      "spiffe://".toList <+: name.value.toList
  · obtain ⟨htype, hsafe, rest, hvalue⟩ := id h
    have hstart : "URI:spiffe://".toList = "URI:".toList ++ "spiffe://".toList := by decide
    have hdrop : ("URI:".toList ++ ("spiffe://".toList ++ trimEnd rest)).drop 4 =
        "spiffe://".toList ++ trimEnd rest := List.drop_left' (by decide)
    have hvalue' : trimEnd name.value.toList = "spiffe://".toList ++ trimEnd rest := by
      rw [← hvalue]
      exact trimEnd_spiffe [] rest
    rw [if_pos h, text_of_uri htype hsafe hvalue.symm, trimEnd_spiffe, hdrop, hvalue', if_pos]
    rw [hstart, List.prefix_append_right_inj]
    exact List.prefix_append _ _
  · rw [if_neg h, if_neg]
    intro hbegins
    exact h ((begins_iff name).mp (hbegins.trans (List.rdropWhile_prefix _ _)))

theorem spiffeUrisFromSubjectAltName_of_ne {text : String} (h : text ≠ "") :
    spiffeUrisFromSubjectAltName (some text) = (segments ',' text).filterMap spiffeUriOfPart := by
  rw [spiffeUrisFromSubjectAltName, Option.filter_some, if_pos (decide_eq_true h)]

theorem text_ne_nil (name : AltName) : name.text ≠ [] := by
  rw [AltName.text]
  exact List.append_ne_nil_of_right_ne_nil _ (List.cons_ne_nil _ _)

/-- The SPIFFE URIs that are read are those of the URI entries, in order. -/
theorem spiffeUris_eq (names : List AltName) :
    spiffeUrisFromSubjectAltName (subjectaltname names) = names.filterMap AltName.spiffeUri := by
  cases names with
  | nil => rfl
  | cons name names =>
      have hcommas : ∀ part ∈ names.map AltName.text, ',' ∉ part := by
        intro part hpart
        obtain ⟨name, -, rfl⟩ := List.mem_map.mp hpart
        exact comma_notMem_text name
      have hne : String.ofList ([',', ' '].intercalate (name.text :: names.map AltName.text)) ≠ "" := by
        intro h
        have hnil : [',', ' '].intercalate (name.text :: names.map AltName.text) = [] := by
          simpa using congrArg String.toList h
        apply text_ne_nil name
        cases names with
        | nil => simpa [List.intercalate] using hnil
        | cons other names =>
            rw [List.map_cons, List.intercalate_cons_cons] at hnil
            exact (List.append_eq_nil_iff.mp (List.append_eq_nil_iff.mp hnil).1).1
      have hrest : ∀ name : AltName,
          spiffeUriOfPart (String.ofList (' ' :: name.text)) = name.spiffeUri :=
        fun name => (spiffeUriOfPart_blank _).trans (spiffeUriOfPart_text name)
      rw [subjectaltname, if_neg (List.cons_ne_nil _ _), List.map_cons,
        spiffeUrisFromSubjectAltName_of_ne hne,
        segments_intercalate _ (comma_notMem_text name) hcommas, List.map_map]
      simp only [List.filterMap_cons, spiffeUriOfPart_text, List.filterMap_map, Function.comp_def, hrest]

/-! ## Identities -/

/-- The SAN that the handler of `/message` compares with the sender. -/
def canonicalCertSan (certSans : List String) : Option String :=
  certSans.find? fun uri => canonicalPrefix.toList <+: uri.toList

/-- A certificate names a URI. -/
def Names (names : List AltName) (uri : String) : Prop :=
  ∃ name ∈ names, name.type = .uri ∧ name.spiffeUri = some uri

theorem names_of_mem {uri : String}
    (h : uri ∈ spiffeUrisFromSubjectAltName (subjectaltname names)) : Names names uri := by
  rw [spiffeUris_eq] at h
  obtain ⟨name, hmem, huri⟩ := List.mem_filterMap.mp h
  refine ⟨name, hmem, ?_, huri⟩
  unfold AltName.spiffeUri at huri
  split_ifs at huri with hcase
  exact hcase.1

/-- What is read from a certificate are the values of its unquoted URI entries with a SPIFFE scheme,
in order and without the blanks at their end; so every identity is one that a URI entry names. -/
theorem san_parsing (names : List AltName) :
    spiffeUrisFromSubjectAltName (subjectaltname names) = names.filterMap AltName.spiffeUri ∧
      (∀ san, canonicalCertSan (spiffeUrisFromSubjectAltName (subjectaltname names)) = some san →
        Names names san) ∧
      (∀ issuerFingerprint pins peerId,
        attestedPeerIdFromCert (spiffeUrisFromSubjectAltName (subjectaltname names))
          issuerFingerprint pins = some peerId →
            ∃ uri, Names names uri ∧ spiffeUriToPeerId uri = some peerId) ∧
      ∀ authorized sender, extractCanonicalSender ⟨authorized, subjectaltname names⟩ = some sender →
        Names names sender := by
  refine ⟨spiffeUris_eq names, fun san hsan => ?_, fun issuerFingerprint pins peerId hpeer => ?_,
    fun authorized sender hsender => ?_⟩
  · exact names_of_mem (List.mem_of_find?_eq_some hsan)
  · unfold attestedPeerIdFromCert at hpeer
    split at hpeer
    · cases hpeer
    · next uri hfind =>
        split_ifs at hpeer
        exact ⟨uri, names_of_mem (List.mem_of_find?_eq_some hfind), hpeer⟩
  · unfold extractCanonicalSender at hsender
    split_ifs at hsender
    exact names_of_mem (List.mem_of_find?_eq_some hsender)

/-- The certificate of a node behind a name of another kind that looks like two entries. -/
def disguised : List AltName :=
  [⟨.dns, "a, URI:spiffe://thinklocal/node/b"⟩, ⟨.uri, "spiffe://thinklocal/node/abc"⟩]

theorem san_parsing_disguised :
    spiffeUrisFromSubjectAltName (subjectaltname disguised) = ["spiffe://thinklocal/node/abc"] ∧
      Names disguised "spiffe://thinklocal/node/abc" := by
  obtain ⟨hread, hcanonical, -, -⟩ := san_parsing disguised
  have huris : spiffeUrisFromSubjectAltName (subjectaltname disguised) =
      ["spiffe://thinklocal/node/abc"] := by
    rw [hread]
    decide
  refine ⟨huris, hcanonical _ ?_⟩
  rw [huris]
  decide

/-- URI entries that are not read: one that is quoted, and one with a scheme but no authority. -/
theorem san_not_read :
    let names : List AltName := [⟨.uri, "spiffe://thinklocal/node/a,b"⟩, ⟨.uri, "spiffe:node"⟩]
    spiffeUrisFromSubjectAltName (subjectaltname names) ≠
      (names.filter fun name => name.type = .uri ∧ "spiffe:".toList <+: name.value.toList).map
        AltName.value := by
  dsimp only
  rw [spiffeUris_eq]
  decide

/-- A name of another kind with the text of two entries in it. -/
example :
    subjectaltname [⟨.dns, "a, URI:spiffe://thinklocal/node/b"⟩] =
      some "DNS:\"a\\u002c URI:spiffe://thinklocal/node/b\"" := by
  decide

end ThinkLocal.Mesh
