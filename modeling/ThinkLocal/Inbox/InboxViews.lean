import ThinkLocal.Inbox.AgentInbox

/-!
# Two views of the inbox

`list` and `unreadCount` of `AgentInbox` build the clauses of their queries apart from each other, and
the parameters beside them; `markRead` and `archive` change the row of one message id.
-/

namespace ThinkLocal.Inbox

open Foundation Js Messages

/-! ## Queries -/

/-- A clause of a query; the last three take a parameter each. -/
inductive Clause
  /-- `archived = 0` -/
  | notArchived
  /-- `read_at IS NULL` -/
  | unread
  /-- `from_agent = ?` -/
  | sender
  /-- `to_agent_instance = ?` -/
  | inst
  /-- `(to_agent_instance = ? OR to_agent_instance IS NULL)` -/
  | instOrLegacy

/-- The clauses, joined with `AND`, and the parameters in their order. -/
structure Query where
  clauses : List Clause := []
  params : List String := []

def Query.push (query : Query) (clause : Clause) : Query :=
  { query with clauses := query.clauses ++ [clause] }

def Query.pushWith (query : Query) (clause : Clause) (param : String) : Query :=
  { clauses := query.clauses ++ [clause], params := query.params ++ [param] }

/-- Do the clauses hold for a row? -/
def satisfies (row : InboxMessage) : List Clause → List String → Bool
  | [], _ => true
  | .notArchived :: clauses, params => !row.archived && satisfies row clauses params
  | .unread :: clauses, params => row.read_at.isNone && satisfies row clauses params
  | .sender :: clauses, param :: params =>
      (row.from_agent = param) && satisfies row clauses params
  | .inst :: clauses, param :: params =>
      (row.to_agent_instance = some param) && satisfies row clauses params
  | .instOrLegacy :: clauses, param :: params =>
      (row.to_agent_instance = some param || row.to_agent_instance.isNone) &&
        satisfies row clauses params
  | _ :: _, [] => false

def Query.selects (query : Query) (row : InboxMessage) : Bool :=
  satisfies row query.clauses query.params

/-- A filter that is set; an empty text is none. -/
def isSet (filter : Option String) : Option String := filter.filter fun text => text ≠ ""

/-- The query of `list`. -/
def listQuery (opts : ListOptions) : Query :=
  let query : Query := {}
  let query := if !opts.includeArchived then query.push .notArchived else query
  let query := if opts.unreadOnly then query.push .unread else query
  let query :=
    match isSet opts.fromAgent with
    | some fromAgent => query.pushWith .sender fromAgent
    | none => query
  match isSet opts.forInstance with
  | some forInstance =>
      if opts.includeLegacy then query.pushWith .instOrLegacy forInstance
      else query.pushWith .inst forInstance
  | none => query

structure UnreadOptions where
  fromAgent : Option String := none
  forInstance : Option String := none
  includeLegacy : Bool := false

/-- A text instead of options is a sender. -/
def UnreadOptions.ofText (text : String) : UnreadOptions := { fromAgent := some text }

/-- The query of `unreadCount`. -/
def unreadQuery (options : UnreadOptions) : Query :=
  let query : Query := { clauses := [.unread, .notArchived] }
  let query :=
    match isSet options.fromAgent with
    | some fromAgent => query.pushWith .sender fromAgent
    | none => query
  match isSet options.forInstance with
  | some forInstance =>
      if options.includeLegacy then query.pushWith .instOrLegacy forInstance
      else query.pushWith .inst forInstance
  | none => query

def AgentInbox.unreadCount (inbox : AgentInbox) (options : UnreadOptions) : Nat :=
  (inbox.messages.filter (unreadQuery options).selects).length

/-- The options of `list` for the unread messages of a filter. -/
def UnreadOptions.list (options : UnreadOptions) (limit : Nat) : ListOptions where
  unreadOnly := true
  fromAgent := options.fromAgent
  limit := some limit
  forInstance := options.forInstance
  includeLegacy := options.includeLegacy

variable {inbox : AgentInbox} {opts : ListOptions} {options : UnreadOptions} {row : InboxMessage}
  {messageId : String} {now : Int}

/-- The clauses and parameters of `list` select the rows that its options describe. -/
theorem selects_listQuery : (listQuery opts).selects row = opts.selects row := by
  have hsender : ((opts.fromAgent.filter fun text => text ≠ "").all fun sender =>
      row.from_agent = sender) = (isSet opts.fromAgent).all fun sender => row.from_agent = sender :=
    rfl
  have hinstance : ((opts.forInstance.filter fun text => text ≠ "").all fun inst =>
      row.to_agent_instance = some inst || (opts.includeLegacy && row.to_agent_instance.isNone)) =
      (isSet opts.forInstance).all fun inst =>
        row.to_agent_instance = some inst ||
          (opts.includeLegacy && row.to_agent_instance.isNone) := rfl
  rw [ListOptions.selects, hsender, hinstance, listQuery]
  cases opts.includeArchived <;> cases opts.unreadOnly <;> cases isSet opts.fromAgent <;>
    cases isSet opts.forInstance <;> cases opts.includeLegacy <;>
      simp [Query.selects, Query.push, Query.pushWith, satisfies, Bool.and_assoc]

/-- The two queries select the same rows. -/
theorem selects_unreadQuery {limit : Nat} :
    (unreadQuery options).selects row = (options.list limit).selects row := by
  rw [← selects_listQuery, unreadQuery, listQuery, UnreadOptions.list]
  dsimp only
  cases isSet options.fromAgent <;> cases isSet options.forInstance <;>
    cases options.includeLegacy <;>
      simp [Query.selects, Query.push, Query.pushWith, satisfies, Bool.and_assoc, Bool.and_comm,
        Bool.and_left_comm]

/-- As many messages are counted as are listed without a limit. -/
theorem AgentInbox.unreadCount_eq_length_list {limit : Nat} (h : inbox.messages.length ≤ limit) :
    inbox.unreadCount options = (inbox.list (options.list limit)).length := by
  have hsame : inbox.messages.filter (unreadQuery options).selects =
      inbox.messages.filter (options.list limit).selects :=
    List.filter_congr fun row _ => selects_unreadQuery
  have hbound : (inbox.messages.filter (options.list limit).selects).length ≤ limit :=
    (List.length_filter_le _ _).trans h
  have hlimit : (options.list limit).limit.getD 50 = limit := rfl
  rw [unreadCount, hsame, list, hlimit, List.length_take, perm_newestFirst.length_eq,
    min_eq_right hbound]

/-- What is listed for an instance alone is addressed to it. -/
theorem AgentInbox.instance_of_mem_list {inst : String} (hinst : inst ≠ "")
    (hopts : opts.forInstance = some inst) (hlegacy : opts.includeLegacy = false)
    (h : row ∈ inbox.list opts) : row.to_agent_instance = some inst := by
  have hselects := (List.mem_filter.mp (mem_newestFirst.mp (List.mem_of_mem_take h))).2
  simp only [ListOptions.selects, hopts, hlegacy, Option.filter_some, decide_eq_true hinst,
    if_true, Option.all_some, Bool.false_and, Bool.or_false, Bool.and_eq_true,
    decide_eq_true_eq] at hselects
  exact hselects.2

/-! ## Changes of one row -/

/-- The inbox with the row of a message id changed. -/
def AgentInbox.update (inbox : AgentInbox) (messageId : String)
    (change : InboxMessage → InboxMessage)
    (hid : ∀ row, (change row).message_id = row.message_id) : AgentInbox where
  messages := inbox.messages.map fun row => if row.message_id = messageId then change row else row
  nextId := inbox.nextId
  unique := by
    have hids : (inbox.messages.map fun row =>
        if row.message_id = messageId then change row else row).map InboxMessage.message_id =
          inbox.messages.map InboxMessage.message_id := by
      rw [List.map_map]
      refine List.map_congr_left fun row _ => ?_
      by_cases h : row.message_id = messageId <;> simp [h, hid]
    rw [hids]
    exact inbox.unique

/-- The row with a time of reading. -/
def InboxMessage.markRead (now : Int) (row : InboxMessage) : InboxMessage :=
  if row.read_at.isNone then { row with read_at := some (isoText now) } else row

def InboxMessage.archive (row : InboxMessage) : InboxMessage := { row with archived := true }

theorem InboxMessage.message_id_markRead (row : InboxMessage) :
    (row.markRead now).message_id = row.message_id := by
  unfold InboxMessage.markRead
  split <;> rfl

theorem InboxMessage.message_id_archive (row : InboxMessage) :
    row.archive.message_id = row.message_id := rfl

/-- `UPDATE messages SET read_at = ? WHERE message_id = ? AND read_at IS NULL`. -/
def AgentInbox.markRead (inbox : AgentInbox) (messageId : String) (now : Int) : AgentInbox × Bool :=
  (inbox.update messageId (InboxMessage.markRead now) InboxMessage.message_id_markRead,
    inbox.messages.any fun row => row.message_id = messageId && row.read_at.isNone)

/-- `UPDATE messages SET archived = 1 WHERE message_id = ?`. -/
def AgentInbox.archive (inbox : AgentInbox) (messageId : String) : AgentInbox × Bool :=
  (inbox.update messageId InboxMessage.archive InboxMessage.message_id_archive,
    inbox.messages.any fun row => row.message_id = messageId)

/-- The rows stay in their places, and those of other message ids stay as they are. -/
structure OnlyRow (messageId : String) (before after : AgentInbox) : Prop where
  nextId : after.nextId = before.nextId
  messages : List.Forall₂ (fun row row' => row'.message_id = row.message_id ∧
    (row.message_id ≠ messageId → row' = row)) before.messages after.messages

theorem AgentInbox.onlyRow_update {change : InboxMessage → InboxMessage}
    (hid : ∀ row, (change row).message_id = row.message_id) :
    OnlyRow messageId inbox (inbox.update messageId change hid) where
  nextId := rfl
  messages := by
    rw [AgentInbox.update, List.forall₂_map_right_iff, List.forall₂_same]
    intro row _
    by_cases h : row.message_id = messageId
    · rw [if_pos h, hid]
      exact ⟨rfl, fun hne => absurd h hne⟩
    · rw [if_neg h]
      exact ⟨rfl, fun _ => rfl⟩

theorem AgentInbox.onlyRow_markRead :
    OnlyRow messageId inbox (inbox.markRead messageId now).1 :=
  onlyRow_update InboxMessage.message_id_markRead

theorem AgentInbox.onlyRow_archive : OnlyRow messageId inbox (inbox.archive messageId).1 :=
  onlyRow_update InboxMessage.message_id_archive

end ThinkLocal.Inbox
