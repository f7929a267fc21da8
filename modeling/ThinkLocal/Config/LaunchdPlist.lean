import ThinkLocal.Foundation.Markup
import ThinkLocal.Js.Text

/-!
# The service file of launchd

`launchd-plist.ts`: the placeholders of a template are replaced by the escaped values of the context, and
the result is looked through for what looks like a placeholder.  A template is cut into characters and
placeholders (`pieces`), and both it and the result into markup and text by `xml`.

* `validate_eq_nil_iff`: what a valid context is
* `resolve_render`: an escaped value is read as the value
* `render_faithful`: the result has the tags of the template and its texts with the values
* `cdata_value_escaped`: in a CDATA section a value is escaped, though nothing resolves it there
-/

namespace ThinkLocal.LaunchdPlist

open Foundation Js

/-! ## The functions -/

structure LaunchDaemonContext where
  nodeBin : String
  repoDir : String
  dataDir : String
  runUser : String
  runGroup : String
  configPath : Option String

/-- `[A-Z_]`. -/
def isNameChar (c : Char) : Bool := ('A' ≤ c && c ≤ 'Z') || c = '_'

/-- The name of a placeholder. -/
structure PlaceholderName where
  chars : List Char
  isName : ∀ c ∈ chars, isNameChar c = true
deriving DecidableEq

/-- A match of `PLACEHOLDER_RE` at the beginning of the text, by its name. -/
def matchPlaceholder : List Char → Option PlaceholderName
  | '\x7b' :: '\x7b' :: rest =>
      match rest.dropWhile isNameChar with
      | '\x7d' :: '\x7d' :: _ =>
          if rest.takeWhile isNameChar = [] then none
          else some ⟨rest.takeWhile isNameChar, fun _ hc => List.mem_takeWhile_imp hc⟩
      | _ => none
  | _ => none

/-- A character of a template or a placeholder. -/
inductive Piece
  | char (c : Char)
  | hole (name : PlaceholderName)
deriving DecidableEq

/-- The pieces behind some characters that belong to a match. -/
def piecesFrom : ℕ → List Char → List Piece
  | _, [] => []
  | skip + 1, _ :: text => piecesFrom skip text
  | 0, c :: text =>
      match matchPlaceholder (c :: text) with
      | some name => .hole name :: piecesFrom (name.chars.length + 3) text
      | none => .char c :: piecesFrom 0 text

/-- The text with the matches of `PLACEHOLDER_RE`, from left to right. -/
def pieces (text : List Char) : List Piece := piecesFrom 0 text

/-- What a match of `STRAY_PLACEHOLDER_RE` at the beginning has between the braces. -/
def matchStray : List Char → Option (List Char)
  | '\x7b' :: '\x7b' :: rest =>
      match rest.dropWhile (· ≠ '\x7d') with
      | '\x7d' :: '\x7d' :: _ => some (rest.takeWhile (· ≠ '\x7d'))
      | _ => none
  | _ => none

/-- `rendered.match(STRAY_PLACEHOLDER_RE)`. -/
def strayFrom : ℕ → List Char → List (List Char)
  | _, [] => []
  | skip + 1, _ :: text => strayFrom skip text
  | 0, c :: text =>
      match matchStray (c :: text) with
      | some inside =>
          ('\x7b' :: '\x7b' :: inside ++ ['\x7d', '\x7d']) :: strayFrom (inside.length + 3) text
      | none => strayFrom 0 text

/-- A match of `LEGACY_PLACEHOLDER_RE` at the beginning, as long as it can be. -/
def matchLegacy : List Char → Option (List Char)
  | '_' :: '_' :: rest =>
      let run := rest.takeWhile isNameChar
      let ends := (List.range run.length).filter fun k => 1 ≤ k ∧ (run.drop k).take 2 = ['_', '_']
      ends.getLast?.map fun k => '_' :: '_' :: run.take k ++ ['_', '_']
  | _ => none

/-- `rendered.match(LEGACY_PLACEHOLDER_RE)`. -/
def firstLegacy : List Char → Option (List Char)
  | [] => none
  | c :: text => (matchLegacy (c :: text)).or (firstLegacy text)

/-- `text.replace(/c/g, by)`. -/
def replaceAll (c : Char) (replacement : String) (text : String) : String :=
  String.ofList (text.toList.flatMap fun d => if d = c then replacement.toList else [d])

def escapeXml (value : String) : String :=
  replaceAll '\x27' "&apos;" (replaceAll '"' "&quot;" (replaceAll '>' "&gt;"
    (replaceAll '<' "&lt;" (replaceAll '&' "&amp;" value))))

def absField (name value : String) : List String :=
  if value = "" ∨ trim value = "" then [name ++ " fehlt/leer"]
  else if value.toList.head? ≠ some '/' then
    [name ++ " muss ein absoluter Pfad sein: '" ++ value ++ "'"]
  else []

def idField (name value : String) : List String :=
  if value = "" ∨ trim value = "" then [name ++ " fehlt/leer"]
  else if value.toList.any isWhiteSpace then
    [name ++ " darf keinen Whitespace enthalten: '" ++ value ++ "'"]
  else []

def validateLaunchDaemonContext (ctx : LaunchDaemonContext) : List String :=
  absField "nodeBin" ctx.nodeBin ++ absField "repoDir" ctx.repoDir ++
    absField "dataDir" ctx.dataDir ++ ctx.configPath.elim [] (absField "configPath") ++
    idField "runUser" ctx.runUser ++ idField "runGroup" ctx.runGroup

/-- `values[name]`. -/
def valueOf (ctx : LaunchDaemonContext) (name : PlaceholderName) : Option String :=
  [("NODE_BIN".toList, ctx.nodeBin), ("REPO".toList, ctx.repoDir),
    ("DATA_DIR".toList, ctx.dataDir),
    ("CONFIG".toList, ctx.configPath.getD (ctx.repoDir ++ "/config/daemon.toml")),
    ("RUN_USER".toList, ctx.runUser), ("RUN_GROUP".toList, ctx.runGroup)].lookup name.chars

def Piece.raw : Piece → List Char
  | char c => [c]
  | hole name => '\x7b' :: '\x7b' :: name.chars ++ ['\x7d', '\x7d']

/-- What stands for a piece in the result. -/
def Piece.rendered (ctx : LaunchDaemonContext) : Piece → List Char
  | char c => [c]
  | hole name =>
      match valueOf ctx name with
      | some v => (escapeXml v).toList
      | none => (hole name).raw

/-- The names of placeholders without a value, sorted. -/
def missingNames (ctx : LaunchDaemonContext) (template : List Piece) : List String :=
  let names := template.filterMap fun
    | .char _ => none
    | .hole name => if (valueOf ctx name).isSome then none else some (String.ofList name.chars)
  names.dedup.mergeSort fun a b => ! decide (b < a)

def assertRenderedPlistClean (rendered : String) : Except String Unit :=
  let curly := strayFrom 0 rendered.toList
  if curly ≠ [] then
    .error ("[launchd-plist] unersetzte Platzhalter im Output: " ++
      ", ".intercalate (curly.eraseDups.map String.ofList))
  else
    match firstLegacy rendered.toList with
    | some legacy =>
        .error ("[launchd-plist] Legacy-Platzhalter im Output: " ++ String.ofList legacy)
    | none => .ok ()

def renderLaunchDaemonPlist (template : String) (ctx : LaunchDaemonContext) :
    Except String String :=
  let errors := validateLaunchDaemonContext ctx
  if errors ≠ [] then
    .error ("[launchd-plist] ungültiger Kontext: " ++ "; ".intercalate errors)
  else
    let missing := missingNames ctx (pieces template.toList)
    if missing ≠ [] then
      .error ("[launchd-plist] Template enthält unbekannte Platzhalter: " ++
        ", ".intercalate missing)
    else
      let rendered := String.ofList ((pieces template.toList).flatMap (Piece.rendered ctx))
      (assertRenderedPlistClean rendered).map fun _ => rendered

/-! ## XML -/

/-- Where a reader of XML is. -/
inductive Mode
  | text
  | opened
  | bang
  | bangDash
  | comment (dashes : ℕ)
  | sectionName (rest : List Char)
  | cdata (brackets : ℕ)
  | instruction (question : Bool)
  | declaration (quote : Option Char) (depth : ℕ)
  | tag (quote : Option Char)
deriving DecidableEq

/-- Inside of quotes up to the closing one. -/
def inQuotes (quote : Option Char) (c : Char) : Option Char :=
  match quote with
  | some q => if c = q then none else some q
  | none => if c = '"' ∨ c = '\x27' then some c else none

/-- The next character of a tag. -/
def stepTag (quote : Option Char) (c : Char) : Mode :=
  if quote = none ∧ c = '>' then .text else .tag (inQuotes quote c)

/-- The next character of a declaration; brackets may be nested. -/
def stepDeclaration (quote : Option Char) (depth : ℕ) (c : Char) : Mode :=
  if quote = none ∧ c = '>' ∧ depth = 0 then .text
  else if quote = none ∧ (c = '[' ∨ c = '<') then .declaration none (depth + 1)
  else if quote = none ∧ (c = ']' ∨ c = '>') then .declaration none (depth - 1)
  else .declaration (inQuotes quote c) depth

def Mode.step : Mode → Char → Mode
  | text, c => if c = '<' then opened else text
  | opened, c => if c = '!' then bang else if c = '?' then instruction false else stepTag none c
  | bang, c =>
      if c = '-' then bangDash
      else if c = '[' then sectionName ['C', 'D', 'A', 'T', 'A', '[']
      else stepDeclaration none 0 c
  | bangDash, c => if c = '-' then comment 0 else stepDeclaration none 0 c
  | comment dashes, c =>
      if c = '-' then comment (dashes + 1) else if c = '>' ∧ 2 ≤ dashes then text else comment 0
  | sectionName (c' :: rest), c =>
      if c = c' then if rest = [] then cdata 0 else sectionName rest else stepDeclaration none 0 c
  | sectionName [], c => stepDeclaration none 0 c
  | cdata brackets, c =>
      if c = ']' then cdata (brackets + 1) else if c = '>' ∧ 2 ≤ brackets then text else cdata 0
  | instruction question, c => if question ∧ c = '>' then text else instruction (c = '?')
  | declaration quote depth, c => stepDeclaration quote depth c
  | tag quote, c => stepTag quote c

def xml : Scanner Mode where
  text := .text
  opening := '<'
  step := Mode.step
  step_text _ h := if_neg h

/-- The markup and the text of an XML text. -/
def tokens (text : List Char) : List (Token Char) := xml.tokens id text

/-- Start tags, end tags and tags of empty elements. -/
def isTag : List Char → Bool
  | '<' :: c :: _ => c ≠ '!' && c ≠ '?'
  | _ => false

/-- The sequence of the tags. -/
def tags (text : List Char) : List (List Char) := (Token.markups (tokens text)).filter isTag

/-- The name of a start tag, behind a slash that of an end tag. -/
def tagName (m : List Char) : List Char :=
  (m.drop 1).takeWhile fun c => c ∉ [' ', '\t', '\n', '\r', '>']

def isStringStart (m : List Char) : Bool := tagName m = "string".toList

def isStringEnd (m : List Char) : Bool := tagName m = "/string".toList

def isEmptyString (m : List Char) : Bool :=
  tagName m = "string/".toList || (isStringStart m && m.reverse.take 2 = ['>', '/'])

/-- The content of a CDATA section. -/
def cdataContent (m : List Char) : Option (List Char) :=
  if m.take 9 = "<![CDATA[".toList then some ((m.drop 9).take (m.length - 12)) else none

/-- The texts of the `string` elements; `current` is that of an open one. -/
def stringTextsFrom {α : Type} (char : α → Char) (readText : List α → Option (List Char)) :
    Option (Option (List Char)) → List (Token α) → List (Option (List Char))
  | _, [] => []
  | current, .text t :: rest =>
      stringTextsFrom char readText (current.map fun text =>
        text.bind fun before => (readText t).map (before ++ ·)) rest
  | none, .markup m :: rest =>
      if isEmptyString (m.map char) then some [] :: stringTextsFrom char readText none rest
      else if isStringStart (m.map char) then stringTextsFrom char readText (some (some [])) rest
      else stringTextsFrom char readText none rest
  | some text, .markup m :: rest =>
      if isStringEnd (m.map char) then text :: stringTextsFrom char readText none rest
      else
        match cdataContent (m.map char) with
        | some content => stringTextsFrom char readText (some (text.map (· ++ content))) rest
        | none => stringTextsFrom char readText (some text) rest

/-! ## References -/

/-- The text of a reference: the predefined entities, and what XML and the document say of others. -/
def entity (declared : List Char → Option (List Char)) (name : List Char) : Option (List Char) :=
  match ([("amp".toList, '&'), ("lt".toList, '<'), ("gt".toList, '>'), ("quot".toList, '"'),
    ("apos".toList, '\x27')] : List (List Char × Char)).lookup name with
  | some c => some [c]
  | none => declared name

/-- A character of the name of an entity or of a character reference. -/
def isReferenceChar (c : Char) : Bool :=
  c.isAlphanum || c ∈ ['.', '-', '_', ':', '#'] || 0x80 ≤ c.toNat

/-- The text with its references resolved, where a placeholder stands for its value; `name` is what was
read of an open reference. -/
def resolveFrom (declared : List Char → Option (List Char)) (value : PlaceholderName → List Char) :
    Option (List Char) → List Piece → Option (List Char)
  | none, [] => some []
  | some _, [] => none
  | none, .char c :: rest =>
      if c = '&' then resolveFrom declared value (some []) rest
      else (resolveFrom declared value none rest).map (c :: ·)
  | none, .hole name :: rest => (resolveFrom declared value none rest).map (value name ++ ·)
  | some name, .char c :: rest =>
      if c = ';' then
        (entity declared name).bind fun text =>
          (resolveFrom declared value none rest).map (text ++ ·)
      else if isReferenceChar c then resolveFrom declared value (some (name ++ [c])) rest
      else none
  | some _, .hole _ :: _ => none

/-- The text with its references resolved. -/
def resolve (declared : List Char → Option (List Char)) (text : List Char) : Option (List Char) :=
  resolveFrom declared (fun _ => []) none (text.map .char)

/-! ## What is promised -/

/-- The character that stands for a piece where markup is looked for. -/
def Piece.symbol : Piece → Char
  | char c => c
  | hole _ => '\x7b'

def Piece.IsHole : Piece → Prop
  | char _ => False
  | hole _ => True

instance : DecidablePred Piece.IsHole
  | .char _ => isFalse id
  | .hole _ => isTrue trivial

/-- A template: its placeholders stand outside of markup, and its references can be resolved. -/
structure Template (declared : List Char → Option (List Char)) where
  text : String
  inText : xml.InText Piece.symbol Piece.IsHole xml.start (pieces text.toList)
  references : ∀ t ∈ Token.texts (tokens text.toList), (resolve declared t).isSome

/-- A text with a placeholder of either kind. -/
def HasPlaceholder (text : List Char) : Prop :=
  (∃ before inside after, text = before ++ '\x7b' :: '\x7b' :: inside ++ '\x7d' :: '\x7d' :: after ∧
      '\x7d' ∉ inside) ∨
    ∃ before name after, text = before ++ '_' :: '_' :: name ++ '_' :: '_' :: after ∧ name ≠ [] ∧
      ∀ c ∈ name, isNameChar c = true

/-- The texts of the `string` elements of an XML text. -/
def stringTexts (declared : List Char → Option (List Char)) (text : List Char) :
    List (Option (List Char)) :=
  stringTextsFrom id (resolve declared) none (tokens text)

/-- The value that the context has for a placeholder. -/
def contextValue (ctx : LaunchDaemonContext) (name : PlaceholderName) : List Char :=
  ((valueOf ctx name).getD "").toList

/-- The texts of the `string` elements of a template, with the values of a context for placeholders. -/
def expectedTexts (declared : List Char → Option (List Char)) (ctx : LaunchDaemonContext)
    (template : List Char) : List (Option (List Char)) :=
  stringTextsFrom Piece.symbol (resolveFrom declared (contextValue ctx) none) none
    (xml.tokens Piece.symbol (pieces template))

/-- The result has no placeholder, the tags of the template and its texts with the values. -/
structure Faithful (declared : List Char → Option (List Char)) (template : List Char)
    (ctx : LaunchDaemonContext) (out : List Char) : Prop where
  clean : ¬ HasPlaceholder out
  tags : tags out = tags template
  texts : stringTexts declared out = expectedTexts declared ctx template

/-- The names that the context has values for. -/
def knownNames : List (List Char) :=
  ["NODE_BIN".toList, "REPO".toList, "DATA_DIR".toList, "CONFIG".toList, "RUN_USER".toList,
    "RUN_GROUP".toList]

/-- The placeholders in the pieces. -/
def holes (ps : List Piece) : List PlaceholderName :=
  ps.filterMap fun
    | .char _ => none
    | .hole name => some name

/-- Absolute paths, and a user and a group without white space. -/
structure ValidContext (ctx : LaunchDaemonContext) : Prop where
  nodeBin : ctx.nodeBin.toList.head? = some '/'
  repoDir : ctx.repoDir.toList.head? = some '/'
  dataDir : ctx.dataDir.toList.head? = some '/'
  configPath : ∀ path, ctx.configPath = some path → path.toList.head? = some '/'
  runUser : ctx.runUser ≠ "" ∧ ∀ c ∈ ctx.runUser.toList, isWhiteSpace c = false
  runGroup : ctx.runGroup ≠ "" ∧ ∀ c ∈ ctx.runGroup.toList, isWhiteSpace c = false

/-! ## The context -/

variable {ctx : LaunchDaemonContext} {name value : String} {text : List Char}

theorem trim_ne_empty {c : Char} (hc : c ∈ value.toList) (hspace : isWhiteSpace c = false) :
    trim value ≠ "" := by
  obtain ⟨before, after, hsplit⟩ := List.append_of_mem hc
  have hdrop : ∃ start, value.toList.dropWhile isWhiteSpace = start ++ c :: after := by
    rw [hsplit, List.dropWhile_append]
    split_ifs
    · exact ⟨[], by rw [List.dropWhile_cons_of_neg (by simp [hspace]), List.nil_append]⟩
    · exact ⟨_, rfl⟩
  obtain ⟨start, hdrop⟩ := hdrop
  rw [trim_eq, hdrop, trimEnd_append hspace]
  intro hempty
  have hlist := congrArg String.toList hempty
  rw [String.toList_ofList] at hlist
  exact List.append_ne_nil_of_right_ne_nil _ (List.cons_ne_nil _ _) hlist

theorem absField_eq_nil_iff : absField name value = [] ↔ value.toList.head? = some '/' := by
  rw [absField]
  split_ifs with hblank hhead
  · refine iff_of_false id fun hhead => ?_
    have hmem : '/' ∈ value.toList := List.mem_of_mem_head? hhead
    rcases hblank with rfl | htrim
    · cases hmem
    · exact trim_ne_empty hmem (by decide) htrim
  · exact iff_of_false id hhead
  · exact iff_of_true rfl (not_not.mp hhead)

theorem idField_eq_nil_iff :
    idField name value = [] ↔ value ≠ "" ∧ ∀ c ∈ value.toList, isWhiteSpace c = false := by
  rw [idField]
  split_ifs with hblank hspace
  · refine iff_of_false id fun ⟨hne, hplain⟩ => ?_
    obtain ⟨c, rest, hlist⟩ := List.exists_cons_of_ne_nil
      (fun hnil => hne (String.toList_injective hnil) : value.toList ≠ [])
    have hmem : c ∈ value.toList := by simp [hlist]
    exact trim_ne_empty hmem (hplain c hmem) (hblank.resolve_left hne)
  · refine iff_of_false id fun ⟨_, hplain⟩ => ?_
    obtain ⟨c, hc, hcspace⟩ := List.any_eq_true.mp hspace
    rw [hplain c hc] at hcspace
    cases hcspace
  · refine iff_of_true rfl ⟨fun hempty => hblank (.inl hempty), fun c hc => ?_⟩
    rw [List.any_eq_true] at hspace
    exact Bool.eq_false_iff.mpr fun hcspace => hspace ⟨c, hc, hcspace⟩

/-- No error is reported exactly for the valid contexts. -/
theorem validate_eq_nil_iff : validateLaunchDaemonContext ctx = [] ↔ ValidContext ctx := by
  have hconfig : ctx.configPath.elim [] (absField "configPath") = [] ↔
      ∀ path, ctx.configPath = some path → path.toList.head? = some '/' := by
    cases ctx.configPath with
    | none => simp
    | some path => simp [absField_eq_nil_iff]
  rw [validateLaunchDaemonContext]
  simp only [List.append_eq_nil_iff, absField_eq_nil_iff, idField_eq_nil_iff, hconfig]
  constructor
  · rintro ⟨⟨⟨⟨⟨hnode, hrepo⟩, hdata⟩, hpath⟩, huser⟩, hgroup⟩
    exact ⟨hnode, hrepo, hdata, hpath, huser, hgroup⟩
  · rintro ⟨hnode, hrepo, hdata, hpath, huser, hgroup⟩
    exact ⟨⟨⟨⟨⟨hnode, hrepo⟩, hdata⟩, hpath⟩, huser⟩, hgroup⟩

/-- No value of a valid context is empty. -/
theorem ne_empty_of_valueOf (h : ValidContext ctx) {hole : PlaceholderName}
    (hvalue : valueOf ctx hole = some value) : value ≠ "" := by
  have hne {path : String} (hhead : path.toList.head? = some '/') : path ≠ "" := by
    rintro rfl
    cases hhead
  have hconfig : ctx.configPath.getD (ctx.repoDir ++ "/config/daemon.toml") ≠ "" := by
    cases hpath : ctx.configPath with
    | none =>
        intro hempty
        have hlist := congrArg String.toList hempty
        simp at hlist
    | some path => exact hne (h.configPath path hpath)
  rw [valueOf, List.lookup_eq_some_iff] at hvalue
  obtain ⟨before, after, hsplit, -⟩ := hvalue
  have hmem : (hole.chars, value) ∈ before ++ (hole.chars, value) :: after := by simp
  rw [← hsplit] at hmem
  simp only [List.mem_cons, Prod.mk.injEq, List.not_mem_nil, or_false] at hmem
  -- the six placeholders, of which the first three are absolute paths
  rcases hmem with ⟨-, rfl⟩ | ⟨-, rfl⟩ | ⟨-, rfl⟩ | ⟨-, rfl⟩ | ⟨-, rfl⟩ | ⟨-, rfl⟩
  · exact hne h.nodeBin
  · exact hne h.repoDir
  · exact hne h.dataDir
  · exact hconfig
  · exact h.runUser.1
  · exact h.runGroup.1

/-! ## Escaping -/

/-- A character escaped. -/
def escaped (c : Char) : List Char :=
  if c = '&' then "&amp;".toList
  else if c = '<' then "&lt;".toList
  else if c = '>' then "&gt;".toList
  else if c = '"' then "&quot;".toList
  else if c = '\x27' then "&apos;".toList
  else [c]

/-- The replacements one after the other escape each character once. -/
theorem toList_escapeXml (value : String) :
    (escapeXml value).toList = value.toList.flatMap escaped := by
  simp only [escapeXml, replaceAll, String.toList_ofList, List.flatMap_assoc]
  refine List.flatMap_congr fun c _ => ?_
  by_cases hamp : c = '&'
  · subst hamp
    rfl
  by_cases hlt : c = '<'
  · subst hlt
    rfl
  by_cases hgt : c = '>'
  · subst hgt
    rfl
  by_cases hquot : c = '"'
  · subst hquot
    rfl
  by_cases hapos : c = '\x27'
  · subst hapos
    rfl
  simp only [escaped, hamp, hlt, hgt, hquot, hapos, if_false, List.flatMap_cons, List.flatMap_nil,
    List.append_nil]

theorem escaped_ne_nil (c : Char) : escaped c ≠ [] := by
  rw [escaped]
  split_ifs <;> simp

theorem lt_notMem_escaped (c : Char) : '<' ∉ escaped c := by
  rw [escaped]
  split_ifs with hamp hlt
  all_goals first | decide | simp [Ne.symm hlt]

/-! ## Resolving -/

variable {declared : List Char → Option (List Char)} {contents contents' : PlaceholderName → List Char}

/-- An escaped character is read as the character. -/
theorem resolve_escaped (c : Char) (rest : List Piece) :
    resolveFrom declared contents none ((escaped c).map .char ++ rest) =
      (resolveFrom declared contents none rest).map (c :: ·) := by
  rw [escaped]
  split_ifs with hamp hlt hgt hquot hapos
  · subst hamp
    rfl
  · subst hlt
    rfl
  · subst hgt
    rfl
  · subst hquot
    rfl
  · subst hapos
    rfl
  · rw [List.map_singleton, List.singleton_append, resolveFrom, if_neg hamp]

theorem resolve_escapeXml (value : String) (rest : List Piece) :
    resolveFrom declared contents none ((escapeXml value).toList.map .char ++ rest) =
      (resolveFrom declared contents none rest).map (value.toList ++ ·) := by
  rw [toList_escapeXml]
  induction value.toList with
  | nil => simp
  | cons c cs ih =>
      rw [List.flatMap_cons, List.map_append, List.append_assoc, resolve_escaped, ih, Option.map_map]
      rfl

/-- Where there is no `&`, nothing is resolved. -/
theorem resolve_plain {cs : List Char} (hcs : '&' ∉ cs) (rest : List Piece) :
    resolveFrom declared contents none (cs.map .char ++ rest) =
      (resolveFrom declared contents none rest).map (cs ++ ·) := by
  induction cs with
  | nil => simp
  | cons c cs ih =>
      rw [List.mem_cons, not_or] at hcs
      rw [List.map_cons, List.cons_append, resolveFrom, if_neg (Ne.symm hcs.1), ih hcs.2,
        Option.map_map]
      rfl

/-- The escaped values are read as the values. -/
theorem resolve_render {ps : List Piece} {opened : Option (List Char)} {x : List Char}
    (hknown : ∀ hole ∈ holes ps, (valueOf ctx hole).isSome)
    (h : resolveFrom declared (contextValue ctx) opened ps = some x) :
    resolveFrom declared contents opened ((ps.flatMap (Piece.rendered ctx)).map .char) = some x := by
  induction ps generalizing opened x with
  | nil =>
      cases opened with
      | none => exact h
      | some name => cases h
  | cons p ps ih =>
      cases p with
      | char c =>
          rw [List.flatMap_cons, Piece.rendered, List.singleton_append, List.map_cons]
          cases opened with
          | none =>
              rw [resolveFrom] at h ⊢
              split_ifs at h ⊢ with hamp
              · exact ih hknown h
              · obtain ⟨y, hy, rfl⟩ := Option.map_eq_some_iff.mp h
                rw [ih hknown hy]
                rfl
          | some name =>
              rw [resolveFrom] at h ⊢
              split_ifs at h ⊢ with hend hchar
              · -- the reference that was open ends here
                obtain ⟨text, htext, hrest⟩ := Option.bind_eq_some_iff.mp h
                obtain ⟨y, hy, rfl⟩ := Option.map_eq_some_iff.mp hrest
                rw [htext, Option.bind_some, ih hknown hy]
                rfl
              · exact ih hknown h
      | hole name =>
          cases opened with
          | none =>
              -- a hole stands outside of references, and its escaped value is read as the value
              have hsome : (valueOf ctx name).isSome := hknown name (by simp [holes])
              obtain ⟨value, hvalue⟩ := Option.isSome_iff_exists.mp hsome
              rw [resolveFrom] at h
              obtain ⟨y, hy, rfl⟩ := Option.map_eq_some_iff.mp h
              rw [List.flatMap_cons, Piece.rendered, hvalue, List.map_append, resolve_escapeXml,
                ih (fun hole hmem => hknown hole (List.mem_cons_of_mem _ hmem)) hy, contextValue, hvalue]
              rfl
          | some opened => cases h

theorem amp_notMem_name (name : PlaceholderName) : '&' ∉ name.chars := fun h =>
  absurd (name.isName _ h) (by decide)

/-- A text whose references can be resolved has its placeholders outside of them. -/
theorem resolve_isSome_of_raw {ps : List Piece} {opened : Option (List Char)}
    (h : (resolveFrom declared contents opened ((ps.flatMap Piece.raw).map .char)).isSome) :
    (resolveFrom declared contents' opened ps).isSome := by
  induction ps generalizing opened with
  | nil =>
      cases opened with
      | none => rfl
      | some name => cases h
  | cons p ps ih =>
      cases p with
      | char c =>
          rw [List.flatMap_cons, Piece.raw, List.singleton_append, List.map_cons] at h
          cases opened with
          | none =>
              rw [resolveFrom] at h ⊢
              split_ifs at h ⊢ with hamp
              · exact ih h
              · rw [Option.isSome_map] at h ⊢
                exact ih h
          | some name =>
              rw [resolveFrom] at h ⊢
              split_ifs at h ⊢ with hend hchar
              · cases hentity : entity declared name with
                | none =>
                    rw [hentity] at h
                    cases h
                | some text =>
                    rw [hentity, Option.bind_some, Option.isSome_map] at h
                    rw [Option.bind_some, Option.isSome_map]
                    exact ih h
              · exact ih h
              · cases h
      | hole name =>
          rw [List.flatMap_cons, List.map_append] at h
          cases opened with
          | none =>
              -- outside of a reference the raw placeholder is plain text
              have hplain : '&' ∉ (Piece.hole name).raw := by
                simp [Piece.raw, amp_notMem_name]
              rw [resolve_plain hplain, Option.isSome_map] at h
              rw [resolveFrom, Option.isSome_map]
              exact ih h
          | some opened =>
              -- inside of one its first character ends the reading
              rw [Piece.raw, List.cons_append, List.map_cons, List.cons_append, resolveFrom,
                if_neg (by decide), if_neg (by decide)] at h
              cases h

/-! ## Pieces -/

theorem raw_of_matchPlaceholder {name : PlaceholderName} (h : matchPlaceholder text = some name) :
    ∃ rest, text = (Piece.hole name).raw ++ rest := by
  unfold matchPlaceholder at h
  split at h
  · next rest =>
      split at h
      · next after hafter =>
          split_ifs at h
          obtain rfl := Option.some.inj h
          refine ⟨after, ?_⟩
          have hsplit := List.takeWhile_append_dropWhile (p := isNameChar) (l := rest)
          rw [hafter] at hsplit
          simp [Piece.raw, hsplit]
      · cases h
  · cases h

/-- The pieces are the text. -/
theorem raw_piecesFrom (skip : ℕ) (text : List Char) :
    (piecesFrom skip text).flatMap Piece.raw = text.drop skip := by
  induction text generalizing skip with
  | nil => simp [piecesFrom]
  | cons c text ih =>
      cases skip with
      | succ skip => rw [piecesFrom, ih, List.drop_succ_cons]
      | zero =>
          rw [piecesFrom, List.drop_zero]
          split
          · next name hname =>
              obtain ⟨rest, hrest⟩ := raw_of_matchPlaceholder hname
              have htail : text = '\x7b' :: (name.chars ++ ['\x7d', '\x7d']) ++ rest := by
                simpa [Piece.raw] using congrArg List.tail hrest
              have hdrop : text.drop (name.chars.length + 3) = rest := by
                rw [htail]
                exact List.drop_left' (by simp)
              rw [List.flatMap_cons, ih, hdrop, hrest]
          · rw [List.flatMap_cons, ih, List.drop_zero, Piece.raw, List.singleton_append]

theorem raw_pieces (text : List Char) : (pieces text).flatMap Piece.raw = text := raw_piecesFrom 0 text

theorem lt_notMem_raw (name : PlaceholderName) : '<' ∉ (Piece.hole name).raw := by
  have hname : '<' ∉ name.chars := fun h => absurd (name.isName _ h) (by decide)
  simp [Piece.raw, hname]

theorem fills_raw : xml.Fills Piece.symbol Piece.IsHole Piece.raw where
  plain p hp := by
    cases p with
    | char c => rfl
    | hole name => exact absurd trivial hp
  nonempty p := by cases p <;> simp [Piece.raw]
  text p hp c hc := by
    rintro rfl
    cases p with
    | char c => exact hp
    | hole name => exact lt_notMem_raw name hc
  symbol p hp := by
    cases p with
    | char c => exact hp.elim
    | hole name => exact (by decide : '\x7b' ≠ '<')

theorem fills_rendered (h : ValidContext ctx) :
    xml.Fills Piece.symbol Piece.IsHole (Piece.rendered ctx) where
  plain p hp := by
    cases p with
    | char c => rfl
    | hole name => exact absurd trivial hp
  nonempty p := by
    cases p with
    | char c => exact List.cons_ne_nil _ _
    | hole name =>
        rw [Piece.rendered]
        split
        · next value hvalue =>
            -- a value is not empty, and no character is escaped to nothing
            have hne : value.toList ≠ [] := fun hnil =>
              ne_empty_of_valueOf h hvalue (String.toList_injective hnil)
            rw [toList_escapeXml, ne_eq, List.flatMap_eq_nil_iff]
            obtain ⟨c, rest, hlist⟩ := List.exists_cons_of_ne_nil hne
            exact fun hnil => escaped_ne_nil c (hnil c (by simp [hlist]))
        · simp [Piece.raw]
  text p hp c hc := by
    rintro rfl
    cases p with
    | char c => exact hp
    | hole name =>
        rw [Piece.rendered] at hc
        split at hc
        · rw [toList_escapeXml] at hc
          obtain ⟨d, -, hd⟩ := List.mem_flatMap.mp hc
          exact lt_notMem_escaped d hd
        · exact lt_notMem_raw name hc
  symbol := fills_raw.symbol

/-- The texts of filled tokens. -/
theorem stringTextsFrom_flatMap {g : Piece → List Char} {readText : List Char → Option (List Char)}
    {readText' : List Piece → Option (List Char)} {current : Option (Option (List Char))}
    {ts : List (Token Piece)} (htext : ∀ t, .text t ∈ ts → readText (t.flatMap g) = readText' t)
    (hmarkup : ∀ m, .markup m ∈ ts → m.flatMap g = m.map Piece.symbol) :
    stringTextsFrom id readText current (ts.map (Token.flatMap g)) =
      stringTextsFrom Piece.symbol readText' current ts := by
  induction ts generalizing current with
  | nil => simp [stringTextsFrom]
  | cons token ts ih =>
      have hrest {current : Option (Option (List Char))} :
          stringTextsFrom id readText current (ts.map (Token.flatMap g)) =
            stringTextsFrom Piece.symbol readText' current ts :=
        ih (fun t ht => htext t (List.mem_cons_of_mem _ ht))
          fun m hm => hmarkup m (List.mem_cons_of_mem _ hm)
      cases token with
      | text t =>
          rw [List.map_cons, Token.flatMap, stringTextsFrom, stringTextsFrom,
            htext t List.mem_cons_self, hrest]
      | markup m =>
          have hm := hmarkup m List.mem_cons_self
          cases current with
          | none => simp only [List.map_cons, Token.flatMap, stringTextsFrom, List.map_id, hm, hrest]
          | some text =>
              simp only [List.map_cons, Token.flatMap, stringTextsFrom, List.map_id, hm, hrest]

/-! ## The clean check -/

theorem strayFrom_ne_nil {inside after : List Char} (hinside : '\x7d' ∉ inside) (before : List Char) :
    strayFrom 0 (before ++ '\x7b' :: '\x7b' :: inside ++ '\x7d' :: '\x7d' :: after) ≠ [] := by
  have hne : ∀ c ∈ inside, decide (c ≠ '\x7d') = true := fun c hc => by
    rw [decide_eq_true_eq]
    rintro rfl
    exact hinside hc
  induction before with
  | nil =>
      have hdrop : (inside ++ '\x7d' :: '\x7d' :: after).dropWhile (· ≠ '\x7d') =
          '\x7d' :: '\x7d' :: after := by
        rw [List.dropWhile_append_of_pos hne, List.dropWhile_cons_of_neg (by decide)]
      rw [List.nil_append, List.cons_append, List.cons_append, strayFrom, matchStray, hdrop]
      exact List.cons_ne_nil _ _
  | cons c before ih =>
      rw [List.cons_append, List.cons_append, strayFrom]
      split
      · exact List.cons_ne_nil _ _
      · exact ih

theorem firstLegacy_ne_none {name after : List Char} (hne : name ≠ [])
    (hname : ∀ c ∈ name, isNameChar c = true) (before : List Char) :
    firstLegacy (before ++ '_' :: '_' :: name ++ '_' :: '_' :: after) ≠ none := by
  induction before with
  | nil =>
      have hrun : (name ++ '_' :: '_' :: after).takeWhile isNameChar =
          name ++ '_' :: '_' :: after.takeWhile isNameChar := by
        rw [List.takeWhile_append_of_pos hname, List.takeWhile_cons_of_pos (by decide),
          List.takeWhile_cons_of_pos (by decide)]
      rw [List.nil_append, List.cons_append, List.cons_append, firstLegacy, matchLegacy, hrun]
      rw [ne_eq, Option.or_eq_none_iff, Option.map_eq_none_iff, List.getLast?_eq_none_iff,
        List.filter_eq_nil_iff]
      rintro ⟨hnone, -⟩
      have hlength : 1 ≤ name.length := List.length_pos_iff.mpr hne
      exact hnone name.length (by simp) (by simp [hlength])
  | cons c before ih =>
      rw [List.cons_append, List.cons_append, firstLegacy, ne_eq, Option.or_eq_none_iff]
      exact fun h => ih h.2

theorem not_hasPlaceholder {out : String} (h : assertRenderedPlistClean out = .ok ()) :
    ¬ HasPlaceholder out.toList := by
  rw [assertRenderedPlistClean] at h
  split_ifs at h with hcurly
  rintro (⟨before, inside, after, hsplit, hinside⟩ | ⟨before, name, after, hsplit, hne, hname⟩)
  · rw [hsplit] at hcurly
    exact hcurly (strayFrom_ne_nil hinside before)
  · split at h
    · cases h
    · next hnone => exact firstLegacy_ne_none hne hname before (hsplit ▸ hnone)

/-! ## The result -/

theorem missingNames_eq_nil_iff {ps : List Piece} :
    missingNames ctx ps = [] ↔ ∀ hole ∈ holes ps, (valueOf ctx hole).isSome := by
  rw [missingNames, ← List.length_eq_zero_iff, List.length_mergeSort, List.length_eq_zero_iff,
    List.dedup_eq_nil]
  simp only [holes, List.filterMap_eq_nil_iff, List.mem_filterMap]
  constructor
  · rintro hnone hole ⟨p, hp, hhole⟩
    cases p with
    | char c => cases hhole
    | hole name =>
        obtain rfl := Option.some.inj hhole
        by_contra hsome
        have hmissing : (if (valueOf ctx name).isSome then none else some _) = none := hnone _ hp
        rw [if_neg hsome] at hmissing
        cases hmissing
  · intro hsome p hp
    cases p with
    | char c => rfl
    | hole name => exact if_pos (hsome name ⟨_, hp, rfl⟩)

/-- What is returned is the rendered template; the context is valid and all placeholders are known. -/
theorem render_eq_ok {template out : String} (h : renderLaunchDaemonPlist template ctx = .ok out) :
    ValidContext ctx ∧ (∀ hole ∈ holes (pieces template.toList), (valueOf ctx hole).isSome) ∧
      out.toList = (pieces template.toList).flatMap (Piece.rendered ctx) ∧
      ¬ HasPlaceholder out.toList := by
  unfold renderLaunchDaemonPlist at h
  dsimp only at h
  split_ifs at h with herrors hmissing
  rw [not_not, validate_eq_nil_iff] at herrors
  rw [not_not, missingNames_eq_nil_iff] at hmissing
  cases hclean : assertRenderedPlistClean
      (String.ofList ((pieces template.toList).flatMap (Piece.rendered ctx))) with
  | error e =>
      rw [hclean] at h
      cases h
  | ok done =>
      rw [hclean] at h
      obtain rfl := Except.ok.inj h
      exact ⟨herrors, hmissing, String.toList_ofList, not_hasPlaceholder hclean⟩

theorem faithful_of_render {template : Template declared} {out : String}
    (h : renderLaunchDaemonPlist template.text ctx = .ok out) :
    Faithful declared template.text.toList ctx out.toList := by
  obtain ⟨hvalid, hknown, hout, hclean⟩ := render_eq_ok h
  have hraw := raw_pieces template.text.toList
  have hfills : xml.Fills Piece.symbol Piece.IsHole (Piece.rendered ctx) := fills_rendered hvalid
  have htokens : tokens template.text.toList = (xml.tokens Piece.symbol
      (pieces template.text.toList)).map (Token.flatMap Piece.raw) := by
    rw [← Scanner.tokens_flatMap fills_raw template.inText, hraw, tokens]
  refine ⟨hclean, ?_, ?_⟩
  · have hmarkups : Token.markups (tokens out.toList) =
        Token.markups (tokens template.text.toList) := by
      calc Token.markups (tokens out.toList)
          = (Token.markups (xml.tokens Piece.symbol (pieces template.text.toList))).map
              fun m => m.map Piece.symbol := by
            rw [hout, tokens, Scanner.markups_flatMap hfills template.inText]
        _ = Token.markups (tokens template.text.toList) := by
            rw [← Scanner.markups_flatMap fills_raw template.inText, hraw, tokens]
    rw [tags, tags, hmarkups]
  · rw [stringTexts, tokens, hout, Scanner.tokens_flatMap hfills template.inText, expectedTexts]
    refine stringTextsFrom_flatMap (fun t ht => ?_) fun m hm =>
      Scanner.flatMap_markup hfills template.inText hm
    -- the text of the template can be resolved, so its pieces can
    have hmem : t.flatMap Piece.raw ∈ Token.texts (tokens template.text.toList) := by
      rw [Token.mem_texts, htokens]
      exact List.mem_map_of_mem (f := Token.flatMap Piece.raw) ht
    have hsome : (resolveFrom declared (contextValue ctx) none t).isSome :=
      resolve_isSome_of_raw (template.references _ hmem)
    obtain ⟨x, hx⟩ := Option.isSome_iff_exists.mp hsome
    have hcontent : (xml.tokens Piece.symbol (pieces template.text.toList)).flatMap Token.content =
        pieces template.text.toList := Scanner.content_tokens _
    have hholes : ∀ hole ∈ holes t, hole ∈ holes (pieces template.text.toList) := by
      intro hole hhole
      obtain ⟨p, hp, hname⟩ := List.mem_filterMap.mp hhole
      rw [← hcontent]
      exact List.mem_filterMap.mpr ⟨p, List.mem_flatMap.mpr ⟨_, ht, hp⟩, hname⟩
    rw [resolve, resolve_render (fun hole hhole => hknown hole (hholes hole hhole)) hx, hx]

theorem valueOf_eq_none_iff {hole : PlaceholderName} :
    valueOf ctx hole = none ↔ hole.chars ∉ knownNames := by
  rw [valueOf, List.lookup_eq_none_iff]
  simp [knownNames]

/-- Whatever is returned is clean, has the tags of the template and its texts with the values in place of
the placeholders; for an invalid context or an unknown placeholder nothing is returned. -/
theorem render_faithful (declared : List Char → Option (List Char)) (template : Template declared)
    (ctx : LaunchDaemonContext) :
    (∀ out, renderLaunchDaemonPlist template.text ctx = .ok out →
      Faithful declared template.text.toList ctx out.toList) ∧
      ∀ text : String, ¬ ValidContext ctx ∨
        (∃ hole ∈ holes (pieces text.toList), hole.chars ∉ knownNames) →
          ∀ out, renderLaunchDaemonPlist text ctx ≠ .ok out := by
  refine ⟨fun out h => faithful_of_render h, fun text hwrong out h => ?_⟩
  obtain ⟨hvalid, hknown, -⟩ := render_eq_ok h
  rcases hwrong with hinvalid | ⟨hole, hmem, hunknown⟩
  · exact hinvalid hvalid
  · have hsome := hknown hole hmem
    rw [valueOf_eq_none_iff.mpr hunknown] at hsome
    cases hsome

/-- A context with a directory whose name has an ampersand. -/
def ampersandContext : LaunchDaemonContext where
  nodeBin := "/bin/node"
  repoDir := "/opt/a&b"
  dataDir := "/data"
  runUser := "svc"
  runGroup := "staff"
  configPath := none

/-- A reference and a placeholder in one element. -/
def wordsTemplate : Template fun _ => none where
  text := "<key>Words</key><string>&lt;\x7b\x7bREPO\x7d\x7d</string>"
  inText := by decide +kernel
  references := by decide +kernel

theorem words_rendered :
    Faithful (fun _ => none) wordsTemplate.text.toList ampersandContext
      "<key>Words</key><string>&lt;/opt/a&amp;b</string>".toList :=
  (render_faithful _ wordsTemplate ampersandContext).1 _ (by decide +kernel)

/-- In a CDATA section of a `string` element a value is escaped and so changed, as nothing resolves it. -/
theorem cdata_value_escaped :
    renderLaunchDaemonPlist "<string><![CDATA[\x7b\x7bREPO\x7d\x7d]]></string>" ampersandContext =
        .ok "<string><![CDATA[/opt/a&amp;b]]></string>" ∧
      stringTexts (fun _ => none) "<string><![CDATA[\x7b\x7bREPO\x7d\x7d]]></string>".toList =
        [some "\x7b\x7bREPO\x7d\x7d".toList] ∧
      stringTexts (fun _ => none) "<string><![CDATA[/opt/a&amp;b]]></string>".toList =
        [some "/opt/a&amp;b".toList] ∧
      ampersandContext.repoDir ≠ "/opt/a&amp;b" :=
  ⟨by decide +kernel, by decide +kernel, by decide +kernel, by decide⟩

end ThinkLocal.LaunchdPlist
