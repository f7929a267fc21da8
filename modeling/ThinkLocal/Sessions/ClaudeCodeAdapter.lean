import ThinkLocal.Foundation.Segments
import ThinkLocal.Js.Data
import ThinkLocal.Js.Date
import ThinkLocal.Js.Text

/-!
# The adapter for Claude Code

`claude-code-adapter.ts`: a line of the session file is a record in JSON, and some types of records
are events.  Every other line is skipped.
-/

namespace ThinkLocal.Sessions

open Foundation Js

inductive SessionEventType
  | user_message
  | assistant_message
  | system
  | tool_call
  | tool_result
deriving DecidableEq

/-- An event without its number. -/
structure SessionEvent where
  instanceUuid : String
  timestamp : String
  eventType : SessionEventType
  payload : Data
  adapterVersion : String

structure SessionEventInput where
  seq : Nat
  event : SessionEvent

def CLAUDE_CODE_ADAPTER_VERSION : String := "claude-code/1.0"

/-- The role in a `message` record. -/
def mapRole (message : Data) : SessionEventType :=
  match message with
  | .object fields =>
      match Data.field fields "role" with
      | .string "assistant" => .assistant_message
      | .string "user" => .user_message
      | .string "tool" => .tool_result
      | _ => .assistant_message
  | _ => .assistant_message

def mapEventType (type : String) (record : List (String × Data)) : Option SessionEventType :=
  match type with
  | "user" => some .user_message
  | "assistant" => some .assistant_message
  | "message" => some (mapRole (Data.field record "message"))
  | "system" => some .system
  | "tool_use" | "tool_call" => some .tool_call
  | "tool_result" => some .tool_result
  | _ => none

variable (jsonParse : String → Option Data)

/-- The event of a record; a record without fields has no type. -/
def recordEvent (trimmed : String) : Option SessionEvent :=
  match jsonParse trimmed with
  | some (.object record) =>
      (Data.field record "type").text?.bind fun type =>
        (mapEventType type record).map fun eventType =>
          { instanceUuid := (Data.field record "sessionId").text?.getD "unknown"
            timestamp := (Data.field record "timestamp").text?.getD
              (String.ofList ((toISOString 0).getD []))
            eventType
            payload := .object record
            adapterVersion := CLAUDE_CODE_ADAPTER_VERSION }
  | _ => none

/-- The event of a line, without its number. -/
def lineEvent (line : List Char) : Option SessionEvent :=
  let trimmed := trim (String.ofList line)
  if trimmed = "" then none else recordEvent jsonParse trimmed

def parseClaudeCodeLine (line : List Char) (seq : Nat) : Option SessionEventInput :=
  (lineEvent jsonParse line).map fun event => ⟨seq, event⟩

/-- The loop over the lines. -/
def parseLines : List (List Char) → Nat → List SessionEventInput
  | [], _ => []
  | line :: rest, seq =>
      match parseClaudeCodeLine jsonParse line seq with
      | some event => event :: parseLines rest (seq + 1)
      | none => parseLines rest seq

/-- A byte order mark at the start is dropped. -/
def parseClaudeCodeBuffer (buffer : List Char) (baseSeq : Nat) : List SessionEventInput :=
  let normalised := if buffer.head? = some '\ufeff' then buffer.tail else buffer
  parseLines jsonParse (normalised.splitOn '\n') baseSeq

/-! ## The events of a text -/

/-- Events with consecutive numbers. -/
def numbered : Nat → List SessionEvent → List SessionEventInput
  | _, [] => []
  | seq, event :: rest => ⟨seq, event⟩ :: numbered (seq + 1) rest

/-- The events of the lines of a text. -/
def textEvents (text : List Char) : List SessionEvent := keepLines '\n' (lineEvent jsonParse) text

variable {jsonParse}

theorem numbered_append (seq : Nat) (events later : List SessionEvent) :
    numbered seq (events ++ later) = numbered seq events ++ numbered (seq + events.length) later := by
  induction events generalizing seq with
  | nil => rfl
  | cons event rest ih =>
      rw [List.cons_append, numbered, ih, numbered, List.cons_append, List.length_cons]
      ring_nf

theorem parseLines_eq (lines : List (List Char)) (seq : Nat) :
    parseLines jsonParse lines seq = numbered seq (lines.filterMap (lineEvent jsonParse)) := by
  induction lines generalizing seq with
  | nil => rfl
  | cons line rest ih =>
      rw [parseLines, parseClaudeCodeLine]
      cases hline : lineEvent jsonParse line with
      | none =>
          rw [List.filterMap_cons_none hline]
          exact ih seq
      | some event =>
          rw [List.filterMap_cons_some hline, numbered]
          exact congrArg _ (ih (seq + 1))

/-- A byte order mark is white space. -/
theorem lineEvent_mark (line : List Char) :
    lineEvent jsonParse ('\ufeff' :: line) = lineEvent jsonParse line := by
  have htrim : trim (String.ofList ('\ufeff' :: line)) = trim (String.ofList line) := by
    have hspace : isWhiteSpace '\ufeff' = true := by decide
    rw [trim, trim, String.toList_ofList, String.toList_ofList, List.dropWhile_cons_of_pos hspace]
  rw [lineEvent, lineEvent, htrim]

theorem lineEvent_nil : lineEvent jsonParse [] = none := rfl

theorem textEvents_mark (text : List Char) :
    textEvents jsonParse ('\ufeff' :: text) = textEvents jsonParse text := by
  have hsplit : ('\ufeff' :: text).splitOn '\n' = (text.splitOn '\n').modifyHead ('\ufeff' :: ·) := by
    rw [List.splitOn_cons_eq_if_modifyHead]
    rfl
  rw [textEvents, textEvents, keepLines, keepLines, hsplit]
  cases htext : text.splitOn '\n' with
  | nil => rfl
  | cons line rest =>
      rw [List.modifyHead_cons, List.filterMap_cons, List.filterMap_cons, lineEvent_mark]

/-- The events of a buffer are those of its lines, numbered from the base on. -/
theorem parseClaudeCodeBuffer_eq (buffer : List Char) (baseSeq : Nat) :
    parseClaudeCodeBuffer jsonParse buffer baseSeq =
      numbered baseSeq (textEvents jsonParse buffer) := by
  rw [parseClaudeCodeBuffer, parseLines_eq]
  split
  case isTrue hmark =>
    obtain ⟨text, rfl⟩ := List.head?_eq_some_iff.mp hmark
    rw [textEvents_mark]
    rfl
  case isFalse => rfl

end ThinkLocal.Sessions
