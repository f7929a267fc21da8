import ThinkLocal.Inbox.InboxViews
import ThinkLocal.Inbox.OrderIngest

/-!
# The versions of the inbox

`init` of `AgentInbox` with its migrations.  A table of an older version gets the columns that it lacks,
with the default of each in every row.
-/

namespace ThinkLocal.Inbox

open Foundation Js Messages

/-! ## Tables -/

/-- A value of SQLite. -/
inductive SqlValue
  | null
  | integer (value : Int)
  | real (value : ℚ)
  | text (text : String)
  | blob (content : Bytes)
  deriving DecidableEq

/-- The columns of a row with their values. -/
abbrev Row := List (String × SqlValue)

def Row.get (row : Row) (column : String) : Option SqlValue :=
  (row.find? fun cell => cell.1 = column).map Prod.snd

structure Table where
  columns : List String
  rows : List Row

structure Database where
  /-- `user_version` -/
  version : Nat
  /-- The table `messages`. -/
  messages : Option Table
  indexes : List String

/-- `ALTER TABLE messages ADD COLUMN`; throws if the column is there. -/
def Table.addColumn (table : Table) (column : String × SqlValue) : Option Table :=
  if column.1 ∈ table.columns then none
  else
    some
      { columns := table.columns ++ [column.1]
        rows := table.rows.map fun row => row ++ [column] }

/-- `CREATE INDEX IF NOT EXISTS`; throws if a column is missing. -/
def createIndex (table : Table) (indexes : List String) (name : String) (columns : List String) :
    Option (List String) :=
  if name ∈ indexes then some indexes
  else if columns ⊆ table.columns then some (indexes ++ [name])
  else none

/-! ## Opening -/

def CURRENT_SCHEMA_VERSION : Nat := 3

/-- The columns of the first version. -/
def v1Columns : List String :=
  ["id", "message_id", "from_agent", "to_agent", "subject", "body", "in_reply_to", "sent_at",
    "received_at", "read_at", "archived"]

/-- The columns of signed orders with their defaults. -/
def v3Columns : List (String × SqlValue) :=
  [("is_order", .integer 0), ("signed_bytes", .null), ("signer_spiffe", .null),
    ("signer_keyid", .null), ("signer_pubkey", .null), ("order_nonce", .null),
    ("verified_at", .null), ("verify_verdict", .null), ("trust_status", .null)]

def createSchemaV3 : Database where
  version := CURRENT_SCHEMA_VERSION
  messages :=
    some
      { columns := ["id", "message_id", "from_agent", "to_agent", "to_agent_instance", "subject",
          "body", "in_reply_to", "sent_at", "received_at", "read_at", "archived"] ++
          v3Columns.map Prod.fst
        rows := [] }
  indexes := ["idx_messages_unread", "idx_messages_from", "idx_messages_sent_at",
    "idx_messages_instance", "idx_messages_order"]

/-- Adds the columns that are not among those read before. -/
def addColumns (cols : List String) (columns : List (String × SqlValue)) (table : Table) :
    Option Table :=
  columns.foldlM (fun table column => if column.1 ∈ cols then some table else table.addColumn column)
    table

def migrateToV2 (table : Table) (indexes : List String) : Option (Table × List String) := do
  let table ← addColumns table.columns [("to_agent_instance", .null)] table
  let indexes ← createIndex table indexes "idx_messages_instance" ["to_agent_instance"]
  return (table, indexes)

def migrateToV3 (table : Table) (indexes : List String) : Option (Table × List String) := do
  let table ← addColumns table.columns v3Columns table
  let indexes ← createIndex table indexes "idx_messages_order" ["signer_keyid", "order_nonce"]
  return (table, indexes)

/-- The step to the second version, where it is to be made. -/
def secondVersion (version : Nat) (table : Table) (indexes : List String) :
    Option (Table × List String) :=
  if version < 2 then migrateToV2 table indexes else some (table, indexes)

/-- `init`; `none` where it throws. -/
def init (db : Database) : Option Database :=
  match db.messages with
  | none => some createSchemaV3
  | some table => do
      let (table, indexes) ← secondVersion db.version table db.indexes
      if max db.version 2 < 3 then
        let (table, indexes) ← migrateToV3 table indexes
        return { version := 3, messages := some table, indexes }
      else
        return { db with messages := some table, indexes }

/-- The columns of an order in a row. -/
def Row.order (row : Row) : OrderColumns where
  is_order :=
    match row.get "is_order" with
    | some (.integer value) => value.toNat
    | _ => 0
  signed_bytes :=
    match row.get "signed_bytes" with
    | some (.blob content) => some content
    | _ => none
  signer_spiffe := textOf "signer_spiffe"
  signer_keyid := textOf "signer_keyid"
  signer_pubkey := textOf "signer_pubkey"
  order_nonce := textOf "order_nonce"
  verified_at := textOf "verified_at"
  verify_verdict := textOf "verify_verdict"
  trust_status := textOf "trust_status"
where
  textOf (column : String) : Option String :=
    match row.get column with
    | some (.text text) => some text
    | _ => none

/-! ## Older versions -/

/-- A database of an older version, in which some of the later columns may be: they were added with
their defaults, and no older program writes them. -/
structure Older (db : Database) (table : Table) : Prop where
  messages : db.messages = some table
  version : db.version < CURRENT_SCHEMA_VERSION
  columns : v1Columns ⊆ table.columns
  inst : db.version = 2 → "to_agent_instance" ∈ table.columns
  rows : ∀ row ∈ table.rows, row.map Prod.fst = table.columns
  added : ∀ row ∈ table.rows, ∀ column ∈ v3Columns, ∀ value,
    row.get column.1 = some value → value = column.2

/-- A table with columns added in every row. -/
def Table.extended (table : Table) (added : List (String × SqlValue)) : Table where
  columns := table.columns ++ added.map Prod.fst
  rows := table.rows.map fun row => row ++ added

variable {db : Database} {table : Table} {column : String} {row : Row}
  {columns added : List (String × SqlValue)} {cols indexes : List String}

theorem extended_extended (table : Table) (added added' : List (String × SqlValue)) :
    (table.extended added).extended added' = table.extended (added ++ added') := by
  simp [Table.extended, Function.comp_def]

/-- What is added are the columns that are missing. -/
theorem addColumns_eq (hnodup : (columns.map Prod.fst).Nodup)
    (hcols : ∀ column ∈ columns, column.1 ∈ table.columns → column.1 ∈ cols) :
    addColumns cols columns table =
      some (table.extended (columns.filter fun column => column.1 ∉ cols)) := by
  induction columns generalizing table with
  | nil => simp [addColumns, Table.extended]
  | cons column columns ih =>
      rw [List.map_cons, List.nodup_cons] at hnodup
      rw [addColumns, List.foldlM_cons]
      by_cases hmem : column.1 ∈ cols
      · rw [if_pos hmem, List.filter_cons_of_neg (by simp [hmem])]
        exact ih hnodup.2 fun other hother => hcols other (List.mem_cons_of_mem _ hother)
      · have hnew : column.1 ∉ table.columns := fun h => hmem (hcols column List.mem_cons_self h)
        have hadd : table.addColumn column = some (table.extended [column]) := if_neg hnew
        rw [if_neg hmem, hadd, List.filter_cons_of_pos (by simp [hmem])]
        refine (ih hnodup.2 fun other hother h => ?_).trans
          (congrArg some (extended_extended table [column] _))
        rcases List.mem_append.mp h with h | h
        · exact hcols other (List.mem_cons_of_mem _ hother) h
        · obtain hsame := List.mem_singleton.mp h
          exact absurd (hsame ▸ List.mem_map_of_mem hother) hnodup.1

theorem get_append (row added : Row) (column : String) :
    Row.get (row ++ added) column = (row.get column).or (Row.get added column) := by
  rw [Row.get, List.find?_append, Option.map_or]
  rfl

theorem get_eq_none : row.get column = none ↔ column ∉ row.map Prod.fst := by
  rw [Row.get, Option.map_eq_none_iff, List.find?_eq_none]
  simp only [List.mem_map, not_exists, not_and, decide_eq_true_eq]

theorem get_of_mem {cell : String × SqlValue} (hnodup : (row.map Prod.fst).Nodup)
    (h : cell ∈ row) : row.get cell.1 = some cell.2 := by
  induction row with
  | nil => cases h
  | cons first row ih =>
      rw [List.map_cons, List.nodup_cons] at hnodup
      rcases List.mem_cons.mp h with rfl | h
      · simp [Row.get]
      · have hne : first.1 ≠ cell.1 := fun heq => hnodup.1 (heq ▸ List.mem_map_of_mem h)
        rw [Row.get, List.find?_cons_of_neg (by simpa using hne)]
        exact ih hnodup.2 h

theorem nodup_v3Columns : (v3Columns.map Prod.fst).Nodup := by decide

/-- A row whose columns of orders have their defaults is no order. -/
theorem order_of_defaults (h : ∀ column ∈ v3Columns, row.get column.1 = some column.2) :
    row.order = {} := by
  have hnull : ∀ name, (name, SqlValue.null) ∈ v3Columns → row.get name = some .null :=
    fun name hmem => h (name, .null) hmem
  have horder : row.get "is_order" = some (.integer 0) := h ("is_order", .integer 0) (by decide)
  simp only [Row.order, Row.order.textOf, horder, hnull "signed_bytes" (by decide),
    hnull "signer_spiffe" (by decide), hnull "signer_keyid" (by decide),
    hnull "signer_pubkey" (by decide), hnull "order_nonce" (by decide),
    hnull "verified_at" (by decide), hnull "verify_verdict" (by decide),
    hnull "trust_status" (by decide)]
  rfl

/-- The rows of an older table with columns added: each value is kept. -/
structure Migrated (before : Table) (db : Database) : Prop where
  version : db.version = CURRENT_SCHEMA_VERSION
  table : ∃ added, db.messages = some (before.extended added) ∧
    "to_agent_instance" :: v3Columns.map Prod.fst ⊆ (before.extended added).columns ∧
    ∀ row ∈ (before.extended added).rows, row.order = {}

/-- The columns that `migrateToV3` adds. -/
def missingColumns (table : Table) : List (String × SqlValue) :=
  v3Columns.filter fun column => column.1 ∉ table.columns

theorem mem_columns_extended {name : String} (hname : name ∈ v3Columns.map Prod.fst) :
    name ∈ (table.extended (missingColumns table)).columns := by
  rw [Table.extended, List.mem_append]
  by_cases h : name ∈ table.columns
  · exact .inl h
  · obtain ⟨column, hcolumn, rfl⟩ := List.mem_map.mp hname
    exact .inr (List.mem_map_of_mem (List.mem_filter.mpr ⟨hcolumn, by simp [h]⟩))

theorem exists_createIndex {names : List String} (indexes : List String) (name : String)
    (h : names ⊆ table.columns) : ∃ indexes', createIndex table indexes name names = some indexes' := by
  rw [createIndex, if_pos h]
  split
  · exact ⟨_, rfl⟩
  · exact ⟨_, rfl⟩

theorem migrateToV3_eq (table : Table) (indexes : List String) :
    ∃ indexes', migrateToV3 table indexes =
      some (table.extended (missingColumns table), indexes') := by
  have hadd : addColumns table.columns v3Columns table =
      some (table.extended (missingColumns table)) :=
    addColumns_eq nodup_v3Columns fun _ _ h => h
  have hindexed : ["signer_keyid", "order_nonce"] ⊆
      (table.extended (missingColumns table)).columns := by
    intro name hname
    refine mem_columns_extended ?_
    simp only [List.mem_cons, List.not_mem_nil, or_false] at hname
    rcases hname with rfl | rfl <;> decide
  obtain ⟨indexes', hindex⟩ := exists_createIndex indexes "idx_messages_order" hindexed
  exact ⟨indexes', Option.bind_eq_some_iff.mpr ⟨_, hadd,
    Option.bind_eq_some_iff.mpr ⟨_, hindex, rfl⟩⟩⟩

theorem migrateToV2_eq (table : Table) (indexes : List String) :
    ∃ added indexes', migrateToV2 table indexes = some (table.extended added, indexes') ∧
      added ⊆ [("to_agent_instance", .null)] ∧
      "to_agent_instance" ∈ (table.extended added).columns := by
  let added := [("to_agent_instance", SqlValue.null)].filter fun column =>
    column.1 ∉ table.columns
  have hadd : addColumns table.columns [("to_agent_instance", .null)] table =
      some (table.extended added) := addColumns_eq (by decide) fun _ _ h => h
  have hcolumn : "to_agent_instance" ∈ (table.extended added).columns := by
    rw [Table.extended, List.mem_append]
    by_cases h : "to_agent_instance" ∈ table.columns
    · exact .inl h
    · exact .inr (List.mem_map_of_mem
        (List.mem_filter.mpr ⟨List.mem_cons_self, by simp [h]⟩))
  have hindexed : ["to_agent_instance"] ⊆ (table.extended added).columns := by simpa using hcolumn
  obtain ⟨indexes', hindex⟩ := exists_createIndex indexes "idx_messages_instance" hindexed
  exact ⟨added, indexes', Option.bind_eq_some_iff.mpr ⟨_, hadd,
    Option.bind_eq_some_iff.mpr ⟨_, hindex, rfl⟩⟩, List.filter_subset_self _, hcolumn⟩

/-- The rows of a table that was brought to the third version are no orders. -/
theorem order_extended (h : Older db table) {inst : List (String × SqlValue)}
    (hinst : inst ⊆ [("to_agent_instance", .null)]) :
    ∀ row ∈ ((table.extended inst).extended (missingColumns (table.extended inst))).rows,
      row.order = {} := by
  intro row hrow
  obtain ⟨middle, hmiddle, rfl⟩ := List.mem_map.mp hrow
  obtain ⟨old, hold, rfl⟩ := List.mem_map.mp hmiddle
  refine order_of_defaults fun column hcolumn => ?_
  have hother : Row.get inst column.1 = none := by
    rw [get_eq_none]
    intro hmem
    obtain ⟨cell, hcell, hname⟩ := List.mem_map.mp hmem
    obtain rfl := List.mem_singleton.mp (hinst hcell)
    have hv3 : "to_agent_instance" ∈ v3Columns.map Prod.fst :=
      List.mem_map.mpr ⟨column, hcolumn, hname.symm⟩
    exact absurd hv3 (by decide)
  rw [get_append, get_append, hother, Option.or_none]
  by_cases hmem : column.1 ∈ table.columns
  · -- the column was there, with its default
    have hsome : old.get column.1 ≠ none := by
      rw [ne_eq, get_eq_none, h.rows old hold, not_not]
      exact hmem
    obtain ⟨value, hvalue⟩ := Option.ne_none_iff_exists'.mp hsome
    rw [hvalue, h.added old hold column hcolumn value hvalue]
    rfl
  · have hnone : old.get column.1 = none := by
      rw [get_eq_none, h.rows old hold]
      exact hmem
    have hnew : column.1 ∉ (table.extended inst).columns := by
      rw [Table.extended, List.mem_append, not_or]
      exact ⟨hmem, get_eq_none.mp hother⟩
    have hmissing : column ∈ missingColumns (table.extended inst) :=
      List.mem_filter.mpr ⟨hcolumn, decide_eq_true hnew⟩
    rw [hnone, Option.none_or]
    exact get_of_mem (nodup_v3Columns.sublist (List.filter_sublist.map _)) hmissing

/-- Opening brings an older database to the current version and keeps its rows. -/
theorem migrated_of_init (h : Older db table) :
    ∃ opened, init db = some opened ∧ Migrated table opened := by
  -- the table after the step to the second version
  obtain ⟨inst, middle, hmiddle, hinst, hcolumn⟩ : ∃ inst middle,
      secondVersion db.version table db.indexes = some (table.extended inst, middle) ∧
        inst ⊆ [("to_agent_instance", .null)] ∧
        "to_agent_instance" ∈ (table.extended inst).columns := by
    unfold secondVersion
    by_cases hversion : db.version < 2
    · rw [if_pos hversion]
      exact migrateToV2_eq table db.indexes
    · have htwo : db.version = 2 := by
        have hold := h.version
        unfold CURRENT_SCHEMA_VERSION at hold
        omega
      have hsame : table.extended [] = table := by simp [Table.extended]
      rw [if_neg hversion]
      exact ⟨[], db.indexes, by rw [hsame], List.nil_subset _, by rw [hsame]; exact h.inst htwo⟩
  obtain ⟨indexes, hindexes⟩ := migrateToV3_eq (table.extended inst) middle
  have hlast : max db.version 2 < 3 := by
    have hold := h.version
    unfold CURRENT_SCHEMA_VERSION at hold
    omega
  let opened : Database :=
    { version := 3
      messages := some ((table.extended inst).extended (missingColumns (table.extended inst)))
      indexes }
  have hinit : init db = some opened := by
    rw [init, h.messages]
    refine Option.bind_eq_some_iff.mpr ⟨_, hmiddle, ?_⟩
    dsimp only
    rw [if_pos hlast]
    exact Option.bind_eq_some_iff.mpr ⟨_, hindexes, rfl⟩
  refine ⟨opened, hinit, rfl, inst ++ missingColumns (table.extended inst), ?_⟩
  rw [← extended_extended]
  refine ⟨rfl, List.cons_subset.mpr ⟨List.mem_append_left _ hcolumn, fun name hname => ?_⟩,
    order_extended h hinst⟩
  exact mem_columns_extended hname

/-! ## The views of an inbox -/

/-- What is counted is what is listed, an instance sees its messages only, a change is one of one row, and
opening keeps what older versions have stored. -/
theorem inboxViews_agree :
    (∀ (inbox : AgentInbox) (options : UnreadOptions) limit, inbox.messages.length ≤ limit →
      inbox.unreadCount options = (inbox.list (options.list limit)).length) ∧
    (∀ (inbox : AgentInbox) (opts : ListOptions) inst row, inst ≠ "" →
      opts.forInstance = some inst → opts.includeLegacy = false → row ∈ inbox.list opts →
        row.to_agent_instance = some inst) ∧
    (∀ (inbox : AgentInbox) messageId now,
      OnlyRow messageId inbox (inbox.markRead messageId now).1 ∧
        OnlyRow messageId inbox (inbox.archive messageId).1) ∧
    ∀ db table, Older db table → ∃ opened, init db = some opened ∧ Migrated table opened :=
  ⟨fun _ _ _ => AgentInbox.unreadCount_eq_length_list,
    fun _ _ _ _ => AgentInbox.instance_of_mem_list,
    fun _ _ _ => ⟨AgentInbox.onlyRow_markRead, AgentInbox.onlyRow_archive⟩,
    fun _ _ => migrated_of_init⟩

/-- A message for an instance of another agent. -/
def storedMessage : InboxMessage where
  id := 1
  message_id := "m"
  from_agent := "a"
  to_agent := "b"
  to_agent_instance := some "codex1"
  subject := .null
  body := .text "hello"
  in_reply_to := .null
  sent_at := .text "2026-04-08T12:00:00.000Z"
  received_at := "2026-04-08T12:00:00.000Z"

def storedInbox : AgentInbox where
  messages := [storedMessage]
  nextId := 2
  unique := List.nodup_singleton _

/-- A table of the first version with one message. -/
def oldTable : Table where
  columns := v1Columns
  rows := [v1Columns.map fun column => (column, .text "x")]

def oldDatabase : Database := ⟨1, some oldTable, []⟩

theorem older_oldDatabase : Older oldDatabase oldTable where
  messages := rfl
  version := by decide
  columns := List.Subset.refl _
  inst h := absurd h (by decide)
  rows := by decide
  added := by decide +kernel

theorem inboxViews_agree_stored :
    (storedInbox.unreadCount {} =
      (storedInbox.list ((UnreadOptions.mk none none false).list 1)).length ∧
      storedMessage.to_agent_instance = some "codex1") ∧
    (OnlyRow "m" storedInbox (storedInbox.markRead "m" 0).1 ∧
      OnlyRow "m" storedInbox (storedInbox.archive "m").1) ∧
    ∃ opened, init oldDatabase = some opened ∧ Migrated oldTable opened :=
  ⟨⟨inboxViews_agree.1 storedInbox {} 1 (Nat.le_refl 1),
      inboxViews_agree.2.1 storedInbox { forInstance := some "codex1" } "codex1" storedMessage
        (by decide) rfl rfl (by decide +kernel)⟩,
    inboxViews_agree.2.2.1 storedInbox "m" 0,
    inboxViews_agree.2.2.2 oldDatabase oldTable older_oldDatabase⟩

/-- The empty text is no filter: a message for another instance is listed. -/
theorem empty_instance_lists_all :
    ∃ row ∈ storedInbox.list { forInstance := some "", includeLegacy := false },
      row.to_agent_instance = some "codex1" ∧ "codex1" ≠ "" :=
  ⟨storedMessage, by decide +kernel, rfl, by decide⟩

end ThinkLocal.Inbox
