import ThinkLocal.Foundation.Except
import ThinkLocal.Js.JsonValues
import ThinkLocal.Sessions.ClaudeCodeAdapter
import ThinkLocal.Sessions.Snippet

/-!
# What the events of a session say

The loop of `renderHistoryMarkdown` in `recovery-generator.ts` over the rows of the event store.
Each row says some notes; the loop throws where a payload is null or a to-do item has no text, and
collects the notes otherwise.
-/

namespace ThinkLocal.Sessions.Recovery

open Foundation Js
open Json (property truthy toText)

/-! ## Rows -/

/-- The columns that a history is made from. -/
structure SessionEventRow where
  timestamp : String
  event_type : SessionEventType
  payload : String

/-- The record of `decode`. -/
def SessionEventRow.record (row : SessionEventRow) : Json :=
  (Json.parse row.payload).getD (.object [])

def blockText (block : Json) : Option String :=
  match property block "type", property block "text", property block "name" with
  | some (.string "text"), some (.string text), _ => some text
  | some (.string "tool_use"), _, some (.string name) => some ("[tool_use: " ++ name ++ "]")
  | _, _, _ => none

def extractText (message : Option Json) : String :=
  match message.bind (property · "content") with
  | some (.string content) => content
  | some (.array blocks) => " ".intercalate (blocks.filterMap blockText)
  | _ => ""

structure ToolCall where
  name : String
  input : Option Json

def toolCall (block : Json) : Option ToolCall :=
  match property block "type", property block "name" with
  | some (.string "tool_use"), some (.string name) => some ⟨name, property block "input"⟩
  | _, _ => none

def extractToolCalls (message : Option Json) : List ToolCall :=
  match message.bind (property · "content") with
  | some (.array blocks) => blocks.filterMap toolCall
  | _ => []

/-- The small letters of a character, as far as they are letters of ASCII. -/
def lowerCase (c : Char) : List Char :=
  if c = '\u212a' then ['k'] else if c = '\u0130' then ['i', '\u0307'] else [c.toLower]

def looksLikeGoal (text : String) : Bool :=
  let lead := (trim (String.ofList (text.toList.flatMap lowerCase))).toList.takeWhile
    (! isWhiteSpace ·)
  ["baue", "implement", "add", "fix", "build", "refactor", "mach", "schreib", "write", "update",
    "test", "review", "check"].any fun verb => verb.toList.isPrefixOf lead

/-- Without regard to case, which for these words is that of ASCII letters. -/
def looksLikeDecision (text : String) : Bool :=
  ["ich werde", "we will", "entschieden", "decision:", "plan:", "let's"].any fun words =>
    includes (String.ofList (text.toList.map Char.toLower)) words

/-! ## The loop -/

structure Collected where
  goals : List String := []
  decisions : List String := []
  filesTouched : List String := []
  commands : List String := []
  errors : List String := []
  nextActions : List String := []

def todoText : Json → Option String
  | .null | .boolean _ | .number _ | .string _ => some ""
  | todo => match property todo "content" with
    | none | some .null => some ""
    | some content => toText content

def todoTexts (todos : List Json) : Option (List String) :=
  (todos.mapM todoText).map fun texts => texts.filter (· ≠ "")

namespace Collected

variable (c : Collected)

def visitCall (call : ToolCall) : Option Collected :=
  if ! truthy call.input then some c
  else
    let field (key : String) := call.input.bind (property · key)
    if call.name = "Edit" ∨ call.name = "Write" then
      match field "file_path" with
      | some (.string fp) => some { c with
          filesTouched := if fp ∈ c.filesTouched then c.filesTouched else c.filesTouched ++ [fp] }
      | _ => some c
    else if call.name = "Bash" then
      match field "command" with
      | some (.string cmd) => some { c with commands := c.commands ++ [snippet cmd 160] }
      | _ => some c
    else if call.name = "TodoWrite" then
      match field "todos" with
      | some (.array todos) => (todoTexts todos).map fun texts => { c with nextActions := texts }
      | _ => some c
    else some c

def visit (row : SessionEventRow) : Option Collected :=
  match row.record with
  | .null => none
  | record =>
      let message := property record "message"
      let text := extractText message
      match row.event_type with
      | .user_message =>
          if text ≠ "" ∧ looksLikeGoal text then
            some { c with goals := c.goals ++ [snippet text 180] }
          else some c
      | .assistant_message =>
          (extractToolCalls message).foldlM visitCall
            (if text ≠ "" ∧ looksLikeDecision text then
              { c with decisions := c.decisions ++ [snippet text 180] }
            else c)
      | .tool_result =>
          match message.bind (property · "is_error") with
          | some (.boolean true) => some { c with errors := c.errors ++ [snippet text 180] }
          | _ => some c
      | .tool_call | .system => some c

end Collected

def collect (events : List SessionEventRow) : Option Collected :=
  events.foldlM Collected.visit {}

/-! ## Notes -/

inductive NoteKind
  | goal
  | decision
  | file
  | command
  | error
  deriving DecidableEq

/-- Something that an event says. -/
inductive Note
  | text (kind : NoteKind) (text : String)
  | todos (todos : List Json)

def ToolCall.note (call : ToolCall) : Option Note :=
  let field (key : String) := call.input.bind (property · key)
  if call.name = "Edit" ∨ call.name = "Write" then
    match field "file_path" with
    | some (.string path) => some (.text .file path)
    | _ => none
  else if call.name = "Bash" then
    match field "command" with
    | some (.string text) => some (.text .command text)
    | _ => none
  else if call.name = "TodoWrite" then
    match field "todos" with
    | some (.array todos) => some (.todos todos)
    | _ => none
  else none

namespace SessionEventRow

variable (row : SessionEventRow)

def message : Option Json := property row.record "message"

def text : String := extractText row.message

def notes : List Note :=
  match row.event_type with
  | .user_message =>
      if row.text ≠ "" ∧ looksLikeGoal row.text then [.text .goal row.text] else []
  | .assistant_message =>
      (if row.text ≠ "" ∧ looksLikeDecision row.text then [.text .decision row.text] else []) ++
        (extractToolCalls row.message).filterMap ToolCall.note
  | .tool_result =>
      match row.message.bind (property · "is_error") with
      | some (.boolean true) => [.text .error row.text]
      | _ => []
  | .tool_call | .system => []

end SessionEventRow

def Note.textOf (kind : NoteKind) : Note → Option String
  | .text other content => if other = kind then some content else none
  | .todos _ => none

def Note.todosOf : Note → Option (List Json)
  | .text _ _ => none
  | .todos items => some items

/-- The texts of one kind. -/
def said (kind : NoteKind) (notes : List Note) : List String := notes.filterMap (Note.textOf kind)

/-- The texts of to-do items that are not empty. -/
def todosText (todos : List Json) : List String := (todos.filterMap todoText).filter (· ≠ "")

/-- The last list of to-do items. -/
def lastTodos (notes : List Note) : List Json := (notes.filterMap Note.todosOf).getLast?.getD []

/-- The content of a to-do item has a text, or there is none. -/
def Readable (todo : Json) : Prop :=
  ∀ content, property todo "content" = some content → content.convertible = true

def Note.Readable : Note → Prop
  | .text _ _ => True
  | .todos items => ∀ todo ∈ items, Recovery.Readable todo

def SessionEventRow.Readable (row : SessionEventRow) : Prop :=
  row.record ≠ .null ∧ ∀ note ∈ row.notes, note.Readable

section Laws

variable {c c' : Collected} {call : ToolCall} {row : SessionEventRow} {events : List SessionEventRow}

/-- A note is added to what is collected. -/
def Collected.add (c : Collected) : Note → Collected
  | .text .goal text => { c with goals := c.goals ++ [snippet text 180] }
  | .text .decision text => { c with decisions := c.decisions ++ [snippet text 180] }
  | .text .file path => { c with
      filesTouched := if path ∈ c.filesTouched then c.filesTouched else c.filesTouched ++ [path] }
  | .text .command text => { c with commands := c.commands ++ [snippet text 160] }
  | .text .error text => { c with errors := c.errors ++ [snippet text 180] }
  | .todos todos => { c with nextActions := todosText todos }

/-! ## One step -/

theorem isSome_toText (value : Json) : (toText value).isSome ↔ value.convertible = true := by
  unfold toText
  split
  case isTrue h => exact iff_of_true rfl h
  case isFalse h => exact iff_of_false Bool.false_ne_true h

theorem isSome_todoText (todo : Json) : (todoText todo).isSome ↔ Recovery.Readable todo := by
  have hnone : ∀ todo, property todo "content" = none →
      ((some "" : Option String).isSome ↔ Recovery.Readable todo) := by
    intro todo hnone
    refine iff_of_true rfl fun content hcontent => ?_
    rw [hnone] at hcontent
    cases hcontent
  cases todo with
  | null => exact hnone _ rfl
  | boolean => exact hnone _ rfl
  | number => exact hnone _ rfl
  | string => exact hnone _ rfl
  | array items => exact hnone _ rfl
  | object fields =>
      rw [todoText.eq_def, Recovery.Readable]
      dsimp only
      cases hcontent : property (.object fields) "content" with
      | none => simp
      | some content =>
          have hone : (∀ other, some content = some other → other.convertible = true) ↔
              content.convertible = true :=
            ⟨fun h => h content rfl, fun h other hother => Option.some.inj hother ▸ h⟩
          rw [hone, ← isSome_toText]
          -- what is no text is converted, which throws for some objects
          cases content <;> rfl

theorem todoTexts_eq_some {todos : List Json} {texts : List String} :
    todoTexts todos = some texts ↔ (∀ todo ∈ todos, Recovery.Readable todo) ∧
      texts = todosText todos := by
  rw [todoTexts, Option.map_eq_some_iff]
  constructor
  · rintro ⟨all, hall, rfl⟩
    obtain ⟨hsome, rfl⟩ := Option.mapM_eq_some_iff.mp hall
    exact ⟨fun todo htodo => (isSome_todoText todo).mp (hsome todo htodo), rfl⟩
  · rintro ⟨hreadable, rfl⟩
    refine ⟨_, Option.mapM_eq_some_iff.mpr ⟨fun todo htodo => ?_, rfl⟩, rfl⟩
    exact (isSome_todoText todo).mpr (hreadable todo htodo)

theorem visitCall_eq_some : c.visitCall call = some c' ↔
    (∀ note ∈ call.note, note.Readable) ∧ c' = call.note.elim c c.add := by
  have hkept : ∀ {kind : NoteKind} {content : String} {next : Collected},
      call.note = some (.text kind content) → c.add (.text kind content) = next →
      (some next = some c' ↔
        (∀ note ∈ call.note, note.Readable) ∧ c' = call.note.elim c c.add) := by
    rintro kind content next hnote rfl
    rw [hnote]
    constructor
    · rintro h
      refine ⟨fun other hother => ?_, (Option.some.inj h).symm⟩
      rw [← Option.some.inj hother]
      trivial
    · rintro ⟨-, rfl⟩
      rfl
  have hnone : call.note = none → (some c = some c' ↔
      (∀ note ∈ call.note, note.Readable) ∧ c' = call.note.elim c c.add) := by
    intro hnote
    rw [hnote]
    constructor
    · rintro h
      exact ⟨fun other hother => (nomatch hother), (Option.some.inj h).symm⟩
    · rintro ⟨-, rfl⟩
      rfl
  rw [Collected.visitCall]
  split_ifs with hfalsy hedit hbash htodo
  · -- what is not truthy has no fields
    refine hnone ?_
    have hfield : ∀ key, call.input.bind (property · key) = none := by
      intro key
      rcases hinput : call.input with _ | _ | _ | _ | _ | _ | _
      all_goals first | rfl | simp [hinput, truthy] at hfalsy
    simp only [ToolCall.note, hfield, ite_self]
  · have hnote : call.note = match call.input.bind (property · "file_path") with
        | some (.string path) => some (.text .file path)
        | _ => none := if_pos hedit
    dsimp only
    split
    case h_1 fp hfp => exact hkept (hnote.trans (by rw [hfp])) rfl
    case h_2 hother => exact hnone (hnote.trans (by split <;> simp_all))
  · have hnote : call.note = match call.input.bind (property · "command") with
        | some (.string text) => some (.text .command text)
        | _ => none := (if_neg hedit).trans (if_pos hbash)
    dsimp only
    split
    case h_1 cmd hcmd => exact hkept (hnote.trans (by rw [hcmd])) rfl
    case h_2 hother => exact hnone (hnote.trans (by split <;> simp_all))
  · have hnote : call.note = match call.input.bind (property · "todos") with
        | some (.array todos) => some (.todos todos)
        | _ => none := (if_neg hedit).trans ((if_neg hbash).trans (if_pos htodo))
    dsimp only
    split
    case h_1 todos htodos =>
      have hnote' : call.note = some (.todos todos) := hnote.trans (by rw [htodos])
      rw [hnote', Option.map_eq_some_iff]
      constructor
      · rintro ⟨texts, htexts, rfl⟩
        obtain ⟨hreadable, rfl⟩ := todoTexts_eq_some.mp htexts
        exact ⟨fun note hnote => Option.some.inj hnote ▸ hreadable, rfl⟩
      · rintro ⟨hreadable, rfl⟩
        exact ⟨todosText todos, todoTexts_eq_some.mpr ⟨hreadable _ rfl, rfl⟩, rfl⟩
    case h_2 hother => exact hnone (hnote.trans (by split <;> simp_all))
  · exact hnone ((if_neg hedit).trans ((if_neg hbash).trans (if_neg htodo)))

theorem foldlM_visitCall_eq_some {calls : List ToolCall} :
    calls.foldlM Collected.visitCall c = some c' ↔
      (∀ note ∈ calls.filterMap ToolCall.note, note.Readable) ∧
        c' = (calls.filterMap ToolCall.note).foldl .add c := by
  have hfold := Option.foldlM_eq_some_iff (f := Collected.visitCall) (l := calls)
    (fun _ _ _ => visitCall_eq_some) c c'
  rw [hfold, List.foldl_filterMap]
  refine and_congr ⟨fun h note hnote => ?_, fun h call hcall note hnote => ?_⟩ (iff_of_eq ?_)
  · obtain ⟨call, hcall, hnote⟩ := List.mem_filterMap.mp hnote
    exact h call hcall note hnote
  · exact h note (List.mem_filterMap.mpr ⟨call, hcall, hnote⟩)
  · refine congrArg (fun f => c' = calls.foldl f c) (funext₂ fun c call => ?_)
    cases call.note <;> rfl

theorem visit_eq_some : c.visit row = some c' ↔ row.Readable ∧ c' = row.notes.foldl .add c := by
  -- a row whose record is null throws
  have hnull : row.record = .null → (c.visit row = some c' ↔
      row.Readable ∧ c' = row.notes.foldl .add c) := by
    intro hnull
    rw [Collected.visit, hnull]
    exact iff_of_false (nomatch ·) fun h => h.1.1 hnull
  have hsome : row.record ≠ .null → c.visit row = match row.event_type with
      | .user_message =>
          if row.text ≠ "" ∧ looksLikeGoal row.text then some (c.add (.text .goal row.text))
          else some c
      | .assistant_message =>
          (extractToolCalls row.message).foldlM Collected.visitCall
            (if row.text ≠ "" ∧ looksLikeDecision row.text then c.add (.text .decision row.text)
            else c)
      | .tool_result =>
          match row.message.bind (property · "is_error") with
          | some (.boolean true) => some (c.add (.text .error row.text))
          | _ => some c
      | .tool_call | .system => some c := by
    intro hrecord
    rw [Collected.visit]
    split
    · exact absurd ‹_› hrecord
    · rfl
  by_cases hrecord : row.record = .null
  · exact hnull hrecord
  -- the types differ in which notes they add, each is one note or none
  have hone : ∀ {kind : NoteKind} {content : String},
      some (c.add (.text kind content)) = some c' ↔
        (∀ note ∈ [Note.text kind content], note.Readable) ∧
          c' = [Note.text kind content].foldl .add c := by
    intro kind content
    rw [Option.some.injEq, List.forall_mem_singleton]
    exact ⟨fun h => ⟨trivial, h.symm⟩, fun h => h.2.symm⟩
  have hstay : some c = some c' ↔
      (∀ note ∈ ([] : List Note), note.Readable) ∧ c' = ([] : List Note).foldl .add c := by
    rw [Option.some.injEq]
    exact ⟨fun h => ⟨fun _ hnote => (nomatch hnote), h.symm⟩, fun h => h.2.symm⟩
  rw [hsome hrecord, SessionEventRow.Readable, and_iff_right hrecord, SessionEventRow.notes]
  cases row.event_type with
  | user_message =>
      dsimp only
      split_ifs
      · exact hone
      · exact hstay
  | assistant_message =>
      dsimp only
      -- the calls of an answer may add several, and behind its own text
      rw [foldlM_visitCall_eq_some]
      split_ifs
      · rw [List.singleton_append, List.forall_mem_cons, List.foldl_cons]
        exact and_congr_left fun _ => (and_iff_right trivial).symm
      · rfl
  | tool_result =>
      dsimp only
      split
      · exact hone
      · exact hstay
  | tool_call | system => exact hstay

theorem collect_eq_some : collect events = some c ↔
    (∀ row ∈ events, row.Readable) ∧
      c = (events.flatMap SessionEventRow.notes).foldl Collected.add {} := by
  have hfold := Option.foldlM_eq_some_iff (f := Collected.visit) (l := events)
    (fun _ _ _ => visit_eq_some) {} c
  rw [collect, hfold, List.foldl_flatMap]

/-! ## What is collected -/

/-- What is collected of the notes. -/
structure Collects (c : Collected) (notes : List Note) : Prop where
  goals : c.goals = (said .goal notes).map (snippet · 180)
  decisions : c.decisions = (said .decision notes).map (snippet · 180)
  files : ∀ path, path ∈ c.filesTouched ↔ path ∈ said .file notes
  commands : c.commands = (said .command notes).map (snippet · 160)
  errors : c.errors = (said .error notes).map (snippet · 180)
  nextActions : c.nextActions = todosText (lastTodos notes)

theorem said_append (kind : NoteKind) (notes : List Note) (note : Note) :
    said kind (notes ++ [note]) = said kind notes ++ (note.textOf kind).toList := by
  rw [said, List.filterMap_append]
  cases h : note.textOf kind <;> simp [said, h]

theorem lastTodos_text (notes : List Note) (kind : NoteKind) (content : String) :
    lastTodos (notes ++ [.text kind content]) = lastTodos notes := by
  rw [lastTodos, List.filterMap_append]
  simp [Note.todosOf, lastTodos]

theorem lastTodos_todos (notes : List Note) (items : List Json) :
    lastTodos (notes ++ [.todos items]) = items := by
  simp [lastTodos, Note.todosOf]

theorem collects_foldl (notes : List Note) : Collects (notes.foldl .add {}) notes := by
  induction notes using List.reverseRecOn with
  | nil => exact ⟨rfl, rfl, fun _ => Iff.rfl, rfl, rfl, rfl⟩
  | append_singleton notes note ih =>
      rw [List.foldl_append, List.foldl_cons, List.foldl_nil]
      generalize notes.foldl Collected.add {} = c at ih
      obtain ⟨hgoals, hdecisions, hfiles, hcommands, herrors, hnext⟩ := ih
      cases note with
      | todos items =>
          have hsaid : ∀ kind, said kind (notes ++ [.todos items]) = said kind notes := fun kind => by
            rw [said_append]
            exact List.append_nil _
          constructor <;> simp only [hsaid, lastTodos_todos] <;> first | assumption | rfl
      | text kind content =>
          have hlast := lastTodos_text notes kind content
          have hsaid : ∀ other, said other (notes ++ [.text kind content]) =
              said other notes ++ (if kind = other then [content] else []) := fun other => by
            rw [said_append, Note.textOf]
            split <;> rfl
          cases kind with
          | file =>
              constructor <;> simp only [hsaid, hlast]
              -- a file is listed once only
              case files =>
                intro path
                rw [if_true, List.mem_append, List.mem_singleton, ← hfiles]
                simp only [Collected.add]
                split_ifs with hmem
                · exact ⟨.inl, fun h => h.elim id fun heq => heq ▸ hmem⟩
                · rw [List.mem_append, List.mem_singleton]
              all_goals simpa
          | goal | decision | command | error =>
              constructor <;>
                simp [Collected.add, hsaid, hlast, hgoals, hdecisions, hfiles, hcommands, herrors, hnext]

end Laws

end ThinkLocal.Sessions.Recovery
