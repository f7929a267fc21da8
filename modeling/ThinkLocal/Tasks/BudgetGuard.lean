import ThinkLocal.Foundation.Machine
import ThinkLocal.Js.Doubles
import ThinkLocal.Js.Date

/-!
# The token budget of an agent

`BudgetGuard` of `budget-guard.ts` keeps the reported usage in a table and sums it up over the last
hour and the last day, with a comparison of timestamps as texts.

* `report` and `getStatus` are the operations; a report carries what the clock showed and the
  timestamp that the agent gives.
* `BudgetLaw` says what the budget is for: exact sums over instants, and no way back from a limit by
  a further report.
* `budget_law`: the law holds in every run of reports of whole totals that are not negative, with
  plain timestamps.
-/

namespace ThinkLocal.Tasks.Budget

open Foundation ThinkLocal.Js

/-! ## The table -/

/-- A number in a table of SQLite. -/
inductive Cell
  | integer (value : ℤ)
  | real (value : Number)
deriving DecidableEq

/-- What a column `INTEGER NOT NULL` makes of a number: whole numbers of 64 bits become integers, and
`NaN` is bound as `NULL` and refused. -/
def Cell.ofNumber : Number → Option Cell
  | .nan => none
  | .finite q =>
      if q.den = 1 ∧ |q.num| < 2 ^ 63 then some (.integer q.num) else some (.real (.finite q))
  | x => some (.real x)

/-- What the guard takes from its host: sums in SQLite, which are exact while all values are integers
and small, and texts of numbers for the user. -/
structure Host where
  /-- `COALESCE(SUM(column), 0)`; `none` where it throws. -/
  sum : List Cell → Option Number
  toLocaleString : Number → String
  sum_integers : ∀ values : List ℤ, (values.map Int.natAbs).sum ≤ 2 ^ 53 →
    sum (values.map .integer) = some (.ofInt values.sum)

structure TokenUsage where
  prompt_tokens : Number
  completion_tokens : Number
  model : Option String
  timestamp : Option String

/-- A row of `token_usage`. -/
structure Row where
  agent_id : String
  prompt_tokens : Cell
  completion_tokens : Cell
  total_tokens : Cell
  model : Option String
  timestamp : String
deriving DecidableEq

structure BudgetConfig where
  maxTokensPerHour : Option Number
  maxTokensPerDay : Option Number
  softLimitRatio : Option Number

namespace BudgetConfig

def hour (config : BudgetConfig) : Number := config.maxTokensPerHour.getD (.ofInt 500000)

def day (config : BudgetConfig) : Number := config.maxTokensPerDay.getD (.ofInt 5000000)

def ratio (config : BudgetConfig) : Number := config.softLimitRatio.getD (roundDouble (8 / 10))

end BudgetConfig

inductive Status
  | ok
  | soft_limit
  | hard_limit
deriving DecidableEq

structure BudgetStatus where
  agent_id : String
  tokens_last_hour : Number
  tokens_last_day : Number
  limit_hour : Number
  limit_day : Number
  soft_limit_hour : Number
  soft_limit_day : Number
  status : Status
  message : String

/-! ## The guard -/

/-- `Math.floor(x)`. -/
def floor : Number → Number
  | .finite q => .ofInt ⌊q⌋
  | x => x

/-- `limit > 0 && tokens >= bound`. -/
def reaches (limit bound tokens : Number) : Bool := (Number.ofInt 0).lt limit && bound.le tokens

/-- A configured limit is reached. -/
def exceeded (config : BudgetConfig) (tokensHour tokensDay : Number) : Bool :=
  reaches config.hour config.hour tokensHour || reaches config.day config.day tokensDay

def statusOf (host : Host) (config : BudgetConfig) (agentId : String)
    (tokensHour tokensDay : Number) : BudgetStatus :=
  let softHour := floor (config.hour.mul config.ratio)
  let softDay := floor (config.day.mul config.ratio)
  let verdict : Status × String :=
    if exceeded config tokensHour tokensDay then
      (.hard_limit, "❌ Budget exceeded: " ++ host.toLocaleString tokensHour ++
        " tokens/h (limit: " ++ host.toLocaleString config.hour ++ "), " ++
        host.toLocaleString tokensDay ++ " tokens/day (limit: " ++
        host.toLocaleString config.day ++ ")")
    else if reaches config.hour softHour tokensHour || reaches config.day softDay tokensDay then
      (.soft_limit, "⚠️ Approaching budget limit: " ++ host.toLocaleString tokensHour ++
        " tokens/h (soft: " ++ host.toLocaleString softHour ++ "), " ++
        host.toLocaleString tokensDay ++ " tokens/day (soft: " ++
        host.toLocaleString softDay ++ ")")
    else (.ok, "✅ Budget OK")
  { agent_id := agentId
    tokens_last_hour := tokensHour
    tokens_last_day := tokensDay
    limit_hour := config.hour
    limit_day := config.day
    soft_limit_hour := softHour
    soft_limit_day := softDay
    status := verdict.1
    message := verdict.2 }

/-- The sum over the rows of an agent with a timestamp after the cutoff. -/
def tokensSince (host : Host) (rows : List Row) (agentId : String) (cutoff : List Char) :
    Option Number :=
  host.sum ((rows.filter fun row =>
    row.agent_id = agentId ∧ textBefore cutoff row.timestamp.toList = true).map Row.total_tokens)

/-- `none` where the clock has no text or a sum throws. -/
def getStatus (host : Host) (config : BudgetConfig) (rows : List Row) (agentId : String)
    (now : ℤ) : Option BudgetStatus :=
  (toISOString (now - 3600000)).bind fun oneHourAgo =>
    (toISOString (now - 86400000)).bind fun oneDayAgo =>
      (tokensSince host rows agentId oneHourAgo).bind fun tokensHour =>
        (tokensSince host rows agentId oneDayAgo).map fun tokensDay =>
          statusOf host config agentId tokensHour tokensDay

def isAllowed (host : Host) (config : BudgetConfig) (rows : List Row) (agentId : String)
    (now : ℤ) : Option Bool :=
  (getStatus host config rows agentId now).map fun status => status.status ≠ .hard_limit

/-- The row that a report inserts, `none` where that throws; `written` is what the clock shows where
the usage has no timestamp. -/
def rowOf (agentId : String) (usage : TokenUsage) (written : ℤ) : Option Row :=
  let total := usage.prompt_tokens.add usage.completion_tokens
  (usage.timestamp.or ((toISOString written).map String.ofList)).bind fun ts =>
    (Cell.ofNumber usage.prompt_tokens).bind fun prompt =>
      (Cell.ofNumber usage.completion_tokens).bind fun completion =>
        (Cell.ofNumber total).map fun total =>
          ⟨agentId, prompt, completion, total, usage.model, ts⟩

/-- The rows after a report, and the status that it returns. -/
def report (host : Host) (config : BudgetConfig) (rows : List Row) (agentId : String)
    (usage : TokenUsage) (written now : ℤ) : List Row × Option BudgetStatus :=
  match rowOf agentId usage written with
  | none => (rows, none)
  | some row => (rows ++ [row], getStatus host config (rows ++ [row]) agentId now)

/-! ## Runs of reports -/

/-- A call of `report` with two readings of the clock. -/
structure Report where
  agentId : String
  prompt_tokens : Number
  completion_tokens : Number
  model : Option String
  stamp : Option Timestamp
  written : ℤ
  now : ℤ
deriving DecidableEq

namespace Report

def usage (r : Report) : TokenUsage :=
  ⟨r.prompt_tokens, r.completion_tokens, r.model, r.stamp.map Timestamp.text⟩

/-- The instant that the timestamp denotes. -/
def instant (r : Report) : ℚ := (r.stamp.map Timestamp.instant).getD r.written

end Report

/-- A row and the report that it is from. -/
structure Record where
  row : Row
  source : Report
deriving DecidableEq

def rowsOf (records : List Record) : List Row := records.map Record.row

/-- The guard under reports that are not from the future. -/
def budgetGuard : Machine (List Record) Report where
  init := []
  step records r :=
    if r.instant ≤ r.now ∧ r.written ≤ r.now then
      some (records ++ ((rowOf r.agentId r.usage r.written).map fun row => ⟨row, r⟩).toList)
    else none

/-- The rows of a step are those that `report` leaves. -/
theorem rowsOf_step (host : Host) (config : BudgetConfig) {records records' : List Record}
    {r : Report} (hstep : budgetGuard.step records r = some records') :
    rowsOf records' =
      (report host config (rowsOf records) r.agentId r.usage r.written r.now).1 := by
  obtain ⟨-, hstep⟩ := Option.ite_none_right_eq_some.mp hstep
  obtain rfl := Option.some.inj hstep
  rw [report]
  cases rowOf r.agentId r.usage r.written with
  | none => simp [rowsOf]
  | some row => simp [rowsOf]

/-! ## The law -/

/-- The sum of two numbers without rounding. -/
def exactAdd : Number → Number → Number
  | .finite a, .finite b => .finite (a + b)
  | a, b => a.add b

/-- The sum of the totals of an agent whose instant is within the window. -/
def tokensWithin (records : List Record) (agentId : String) (window now : ℤ) : Number :=
  ((records.filter fun record => record.source.agentId = agentId ∧
      ((now - window : ℤ) : ℚ) < record.source.instant ∧ record.source.instant ≤ (now : ℚ)).map
    fun record => exactAdd record.source.prompt_tokens record.source.completion_tokens).foldr
      exactAdd (.ofInt 0)

/-- The status of an agent tells the sums of the last hour and day, and it is blocked exactly where a
limit is reached. -/
def Exact (host : Host) (config : BudgetConfig) (records : List Record) (agentId : String)
    (now : ℤ) : Prop :=
  ∃ status, getStatus host config (rowsOf records) agentId now = some status ∧
    status.tokens_last_hour = tokensWithin records agentId 3600000 now ∧
    status.tokens_last_day = tokensWithin records agentId 86400000 now ∧
    isAllowed host config (rowsOf records) agentId now =
      some (! exceeded config (tokensWithin records agentId 3600000 now)
        (tokensWithin records agentId 86400000 now))

/-- No number falls from some rows to others, and a hard limit stays. -/
def Grows (host : Host) (config : BudgetConfig) (rows rows' : List Row) (agentId : String)
    (now : ℤ) : Prop :=
  ∃ status status', getStatus host config rows agentId now = some status ∧
    getStatus host config rows' agentId now = some status' ∧
    status.tokens_last_hour.le status'.tokens_last_hour = true ∧
    status.tokens_last_day.le status'.tokens_last_day = true ∧
    (status.status = .hard_limit → status'.status = .hard_limit)

/-- What the clock shows a day ago and now is in the years of four digits. -/
def InYears (now : ℤ) : Prop := FourDigits (yearOf (now - 86400000)) ∧ FourDigits (yearOf now)

instance (now : ℤ) : Decidable (InYears now) := inferInstanceAs (Decidable (_ ∧ _))

/-- The tokens that a row counts for where its total is whole and not negative. -/
def Row.tokens (row : Row) : ℕ :=
  match row.total_tokens with
  | .integer value => value.toNat
  | .real _ => 0

/-- The tokens stored for an agent. -/
def stored (rows : List Row) (agentId : String) : ℕ :=
  ((rows.filter fun row => row.agent_id = agentId).map Row.tokens).sum

/-- A report of a whole total that is not negative and leaves the sums exact, with a timestamp as
`toISOString` writes it. -/
structure Plain (records : List Record) (r : Report) : Prop where
  total : ∃ prompt completion : ℚ, ∃ total : ℕ, r.prompt_tokens = .finite prompt ∧
    r.completion_tokens = .finite completion ∧ prompt + completion = total ∧
    stored (rowsOf records) r.agentId + total ≤ 2 ^ 53
  stamp : ∀ t ∈ r.stamp, t.Plain
  written : r.stamp = none → FourDigits (yearOf r.written)
  now : InYears r.now

/-- The sums are exact wherever no instant is in the future, and no further report is a way back. -/
structure BudgetLaw (host : Host) (config : BudgetConfig) (C : List Record → Report → Prop)
    (records : List Record) : Prop where
  exact : ∀ agentId now, InYears now → (∀ record ∈ records, record.source.instant ≤ now) →
    Exact host config records agentId now
  grows : ∀ r records', C records r → budgetGuard.step records r = some records' →
    ∀ agentId, Grows host config (rowsOf records) (rowsOf records') agentId r.now

variable {host : Host} {config : BudgetConfig} {records records' : List Record} {record : Record}
variable {r : Report} {rows : List Row} {agentId : String} {now : ℤ}

/-! ## What the table holds -/

/-- A row of a plain report: its timestamp is the text of the instant and its total is a cell. -/
structure Holds (record : Record) : Prop where
  agent : record.row.agent_id = record.source.agentId
  instant : ∃ time : ℤ, record.source.instant = time ∧ FourDigits (yearOf time) ∧
    toISOString time = some record.row.timestamp.toList
  total : exactAdd record.source.prompt_tokens record.source.completion_tokens =
    .ofInt record.row.tokens
  cell : record.row.total_tokens = .integer record.row.tokens

structure Sound (records : List Record) : Prop where
  holds : ∀ record ∈ records, Holds record
  small : ∀ agentId, stored (rowsOf records) agentId ≤ 2 ^ 53

theorem ofNumber_isSome {q : ℚ} : ∃ cell, Cell.ofNumber (.finite q) = some cell := by
  rw [Cell.ofNumber]
  split
  · exact ⟨_, rfl⟩
  · exact ⟨_, rfl⟩

theorem ofNumber_natCast {n : ℕ} (h : n ≤ 2 ^ 53) :
    Cell.ofNumber (.finite (n : ℚ)) = some (.integer n) := by
  have hsmall : |((n : ℚ)).num| < 2 ^ 63 := by
    rw [Rat.num_natCast, abs_of_nonneg (by positivity)]
    omega
  rw [Cell.ofNumber, if_pos ⟨Rat.den_natCast n, hsmall⟩, Rat.num_natCast]

/-- The timestamp of a plain report is the text of its instant. -/
theorem Plain.exists_timestamp (h : Plain records r) :
    ∃ time : ℤ, ∃ text : List Char, r.instant = time ∧ FourDigits (yearOf time) ∧
      toISOString time = some text ∧
      r.usage.timestamp.or ((toISOString r.written).map String.ofList) = some (String.ofList text) := by
  cases hstamp : r.stamp with
  | some t =>
      obtain ⟨time, htime, hyear, htext⟩ := (h.stamp t hstamp).exists_instant
      refine ⟨time, t.text.toList, ?_, hyear, htext, ?_⟩
      · rw [Report.instant, hstamp]
        exact htime
      · rw [Report.usage, hstamp, String.ofList_toList]
        rfl
  | none =>
      have hyear := h.written hstamp
      refine ⟨r.written, _, ?_, hyear, toISOString_of_fourDigits hyear, ?_⟩
      · rw [Report.instant, hstamp]
        rfl
      · rw [Report.usage, hstamp, toISOString_of_fourDigits hyear]
        rfl

theorem Plain.exists_row (h : Plain records r) :
    ∃ row, rowOf r.agentId r.usage r.written = some row ∧ Holds ⟨row, r⟩ ∧
      stored (rowsOf records) r.agentId + row.tokens ≤ 2 ^ 53 := by
  obtain ⟨time, text, hinstant, hyear, htext, hstamp⟩ := h.exists_timestamp
  obtain ⟨prompt, completion, total, hprompt, hcompletion, htotal, hsmall⟩ := h.total
  have hbound : total ≤ 2 ^ 53 := by omega
  have hsum : r.prompt_tokens.add r.completion_tokens = .finite (total : ℚ) := by
    have hround : roundDouble ((total : ℤ) : ℚ) = .finite ((total : ℤ) : ℚ) :=
      roundDouble_intCast (by rw [Nat.abs_cast]; exact_mod_cast hbound)
    rw [hprompt, hcompletion, Number.add, htotal]
    exact_mod_cast hround
  obtain ⟨promptCell, hpromptCell⟩ := @ofNumber_isSome prompt
  obtain ⟨completionCell, hcompletionCell⟩ := @ofNumber_isSome completion
  refine ⟨⟨r.agentId, promptCell, completionCell, .integer total, r.model, String.ofList text⟩,
    ?_, ⟨rfl, ⟨time, hinstant, hyear, ?_⟩, ?_, ?_⟩, ?_⟩
  · rw [rowOf, hstamp]
    simp only [Report.usage, hsum, Option.bind_some, ofNumber_natCast hbound]
    rw [hprompt, hcompletion, hpromptCell, hcompletionCell]
    rfl
  · rw [htext, String.toList_ofList]
  · dsimp only
    rw [hprompt, hcompletion, exactAdd, htotal]
    rfl
  · rfl
  · exact hsmall

theorem stored_append (rows : List Row) (row : Row) (agentId : String) :
    stored (rows ++ [row]) agentId =
      stored rows agentId + if row.agent_id = agentId then row.tokens else 0 := by
  by_cases hagent : row.agent_id = agentId
  · simp [stored, List.filter_append, hagent]
  · simp [stored, List.filter_append, hagent]

theorem Plain.step (h : Plain records r) (hstep : budgetGuard.step records r = some records') :
    ∃ row, records' = records ++ [⟨row, r⟩] ∧ Holds ⟨row, r⟩ ∧
      stored (rowsOf records) r.agentId + row.tokens ≤ 2 ^ 53 := by
  obtain ⟨row, hrow, hholds, hsmall⟩ := h.exists_row
  obtain ⟨-, hstep⟩ := Option.ite_none_right_eq_some.mp hstep
  obtain rfl := Option.some.inj hstep
  exact ⟨row, by rw [hrow]; rfl, hholds, hsmall⟩

theorem Sound.step (hsound : Sound records) (h : Plain records r)
    (hstep : budgetGuard.step records r = some records') : Sound records' := by
  obtain ⟨row, rfl, hholds, hsmall⟩ := h.step hstep
  constructor
  · intro record hrecord
    rcases List.mem_append.mp hrecord with hold | hnew
    · exact hsound.holds record hold
    · obtain rfl := List.mem_singleton.mp hnew
      exact hholds
  · intro agentId
    have hagent := hholds.agent
    dsimp only at hagent
    rw [rowsOf, List.map_append, List.map_singleton, stored_append, hagent]
    split_ifs with heq
    · exact heq ▸ hsmall
    · exact hsound.small agentId

theorem sound (h : budgetGuard.ReachableUnder Plain records) : Sound records :=
  h.invariant ⟨fun _ hrecord => (nomatch hrecord), fun _ => Nat.zero_le _⟩
    fun _ _ _ hsound hplain hstep => hsound.step hplain hstep

/-! ## Sums -/

/-- The tokens that the guard counts after a cutoff. -/
def counted (rows : List Row) (agentId : String) (cutoff : List Char) : ℕ :=
  ((rows.filter fun row =>
    row.agent_id = agentId ∧ textBefore cutoff row.timestamp.toList = true).map Row.tokens).sum

theorem counted_le_stored (rows : List Row) (agentId : String) (cutoff : List Char) :
    counted rows agentId cutoff ≤ stored rows agentId := by
  have hsub : (rows.filter fun row =>
      row.agent_id = agentId ∧ textBefore cutoff row.timestamp.toList = true).Sublist
      (rows.filter fun row => row.agent_id = agentId) :=
    List.monotone_filter_right rows fun row hrow => by
      simp only [decide_eq_true_eq] at hrow ⊢
      exact hrow.1
  exact (hsub.map Row.tokens).sum_le_sum fun _ _ => Nat.zero_le _

theorem counted_append_le (rows rows' : List Row) (agentId : String) (cutoff : List Char) :
    counted rows agentId cutoff ≤ counted (rows ++ rows') agentId cutoff := by
  rw [counted, counted, List.filter_append, List.map_append, List.sum_append]
  exact Nat.le_add_right _ _

/-- The sum in the table is the sum of the tokens. -/
theorem tokensSince_eq (hsound : Sound records) (agentId : String) (cutoff : List Char) :
    tokensSince host (rowsOf records) agentId cutoff =
      some (.ofInt (counted (rowsOf records) agentId cutoff)) := by
  obtain ⟨chosen, hchosen⟩ : ∃ chosen, chosen = (rowsOf records).filter fun row =>
      row.agent_id = agentId ∧ textBefore cutoff row.timestamp.toList = true := ⟨_, rfl⟩
  have hcells : chosen.map Row.total_tokens =
      (chosen.map fun row => (row.tokens : ℤ)).map Cell.integer := by
    rw [List.map_map]
    refine List.map_congr_left fun row hrow => ?_
    rw [hchosen] at hrow
    obtain ⟨record, hrecord, rfl⟩ := List.mem_map.mp (List.mem_of_mem_filter hrow)
    exact (hsound.holds record hrecord).cell
  have habs : ((chosen.map fun row => (row.tokens : ℤ)).map Int.natAbs).sum =
      counted (rowsOf records) agentId cutoff := by
    rw [List.map_map, counted, ← hchosen]
    rfl
  have hsum : (chosen.map fun row => (row.tokens : ℤ)).sum =
      counted (rowsOf records) agentId cutoff := by
    rw [counted, ← hchosen, Nat.cast_list_sum, List.map_map]
    rfl
  have hsmall := (counted_le_stored (rowsOf records) agentId cutoff).trans (hsound.small agentId)
  rw [tokensSince, ← hchosen, hcells, host.sum_integers _ (habs ▸ hsmall), hsum]

theorem foldr_exactAdd (values : List ℕ) :
    (values.map fun n : ℕ => Number.ofInt n).foldr exactAdd (.ofInt 0) =
      .ofInt (values.sum : ℕ) := by
  induction values with
  | nil => rfl
  | cons n values ih =>
      rw [List.map_cons, List.foldr_cons, ih, List.sum_cons]
      simp [Number.ofInt, exactAdd]

/-- Where no instant is in the future, the texts after the cutoff are the instants in the window. -/
theorem tokensWithin_eq (hsound : Sound records) (window : ℤ) {cutoff : List Char}
    (hyear : FourDigits (yearOf (now - window))) (hcutoff : toISOString (now - window) = some cutoff)
    (hpast : ∀ record ∈ records, record.source.instant ≤ now) (agentId : String) :
    tokensWithin records agentId window now =
      .ofInt (counted (rowsOf records) agentId cutoff) := by
  have hchosen : (records.filter fun record => record.source.agentId = agentId ∧
      ((now - window : ℤ) : ℚ) < record.source.instant ∧ record.source.instant ≤ (now : ℚ)) =
      records.filter fun record => record.row.agent_id = agentId ∧
        textBefore cutoff record.row.timestamp.toList = true := by
    refine List.filter_congr fun record hrecord => decide_eq_decide.mpr ?_
    obtain ⟨time, htime, htimeYear, htext⟩ := (hsound.holds record hrecord).instant
    rw [(hsound.holds record hrecord).agent,
      textBefore_toISOString hyear htimeYear hcutoff htext, and_iff_left (hpast record hrecord),
      htime, Int.cast_lt]
  have htotals : ∀ record ∈ records.filter fun record => record.row.agent_id = agentId ∧
      textBefore cutoff record.row.timestamp.toList = true,
      exactAdd record.source.prompt_tokens record.source.completion_tokens =
        .ofInt record.row.tokens := fun record hrecord =>
    (hsound.holds record (List.mem_of_mem_filter hrecord)).total
  have hrows : counted (rowsOf records) agentId cutoff = ((records.filter fun record =>
      record.row.agent_id = agentId ∧
        textBefore cutoff record.row.timestamp.toList = true).map fun record =>
      record.row.tokens).sum := by
    rw [counted, rowsOf, List.filter_map, List.map_map]
    rfl
  have hfold := foldr_exactAdd ((records.filter fun record => record.row.agent_id = agentId ∧
      textBefore cutoff record.row.timestamp.toList = true).map fun record => record.row.tokens)
  rw [List.map_map] at hfold
  rw [tokensWithin, hchosen, List.map_congr_left htotals, hrows]
  exact hfold

/-! ## The status -/

theorem InYears.hour (h : InYears now) : FourDigits (yearOf (now - 3600000)) :=
  ⟨h.1.1.trans (yearOf_mono (by omega)), (yearOf_mono (by omega)).trans h.2.2⟩

theorem statusOf_hard_limit_iff (agentId : String) (tokensHour tokensDay : Number) :
    (statusOf host config agentId tokensHour tokensDay).status = .hard_limit ↔
      exceeded config tokensHour tokensDay = true := by
  unfold statusOf
  dsimp only
  split_ifs with hhard hsoft
  · exact iff_of_true rfl hhard
  · exact iff_of_false (nomatch ·) hhard
  · exact iff_of_false (nomatch ·) hhard

/-- Sums that are not smaller reach what smaller ones reach. -/
theorem exceeded_mono {hour hour' day day' : ℕ} (hhour : hour ≤ hour') (hday : day ≤ day')
    (h : exceeded config (.ofInt hour) (.ofInt day) = true) :
    exceeded config (.ofInt hour') (.ofInt day') = true := by
  have hreaches : ∀ {limit : Number} {n n' : ℕ}, n ≤ n' →
      reaches limit limit (.ofInt n) = true → reaches limit limit (.ofInt n') = true := by
    intro limit n n' hn hreach
    obtain ⟨hset, hle⟩ := (Bool.and_eq_true _ _).mp hreach
    exact (Bool.and_eq_true _ _).mpr ⟨hset, Number.le_ofInt_of_le (Int.ofNat_le.mpr hn) hle⟩
  rcases (Bool.or_eq_true _ _).mp h with hreach | hreach
  · exact (Bool.or_eq_true _ _).mpr (.inl (hreaches hhour hreach))
  · exact (Bool.or_eq_true _ _).mpr (.inr (hreaches hday hreach))

variable (host config) in
theorem getStatus_eq (hsound : Sound records) {oneHourAgo oneDayAgo : List Char}
    (hhour : toISOString (now - 3600000) = some oneHourAgo)
    (hday : toISOString (now - 86400000) = some oneDayAgo) (agentId : String) :
    getStatus host config (rowsOf records) agentId now =
      some (statusOf host config agentId (.ofInt (counted (rowsOf records) agentId oneHourAgo))
        (.ofInt (counted (rowsOf records) agentId oneDayAgo))) := by
  rw [getStatus, hhour, hday]
  simp only [Option.bind_some, tokensSince_eq hsound, Option.map_some]

theorem Sound.exact (hsound : Sound records) (hnow : InYears now)
    (hpast : ∀ record ∈ records, record.source.instant ≤ now) (agentId : String) :
    Exact host config records agentId now := by
  have hhour := toISOString_of_fourDigits hnow.hour
  have hday := toISOString_of_fourDigits hnow.1
  have hstatus := getStatus_eq host config hsound hhour hday agentId
  refine ⟨_, hstatus, (tokensWithin_eq hsound _ hnow.hour hhour hpast agentId).symm,
    (tokensWithin_eq hsound _ hnow.1 hday hpast agentId).symm, ?_⟩
  rw [isAllowed, hstatus, tokensWithin_eq hsound _ hnow.hour hhour hpast,
    tokensWithin_eq hsound _ hnow.1 hday hpast, Option.map_some, Option.some.injEq]
  simp only [ne_eq, statusOf_hard_limit_iff, decide_not, Bool.decide_eq_true]

/-- One more report never lowers a sum. -/
theorem Sound.grows (hsound : Sound records) (h : Plain records r)
    (hstep : budgetGuard.step records r = some records') (agentId : String) :
    Grows host config (rowsOf records) (rowsOf records') agentId r.now := by
  have hsound' := hsound.step h hstep
  obtain ⟨row, rfl, -, -⟩ := h.step hstep
  have hhour := toISOString_of_fourDigits h.now.hour
  have hday := toISOString_of_fourDigits h.now.1
  have hless : ∀ cutoff, counted (rowsOf records) agentId cutoff ≤
      counted (rowsOf (records ++ [⟨row, r⟩])) agentId cutoff := by
    intro cutoff
    rw [rowsOf, rowsOf, List.map_append]
    exact counted_append_le _ _ _ _
  have hle : ∀ {n n' : ℕ}, n ≤ n' → (Number.ofInt n).le (.ofInt n') = true := by
    intro n n' hn
    refine Number.le_ofInt_of_le (Int.ofNat_le.mpr hn) ?_
    simp [Number.le, Number.ofInt]
  refine ⟨_, _, getStatus_eq host config hsound hhour hday agentId,
    getStatus_eq host config hsound' hhour hday agentId, hle (hless _), hle (hless _), ?_⟩
  rw [statusOf_hard_limit_iff, statusOf_hard_limit_iff]
  exact exceeded_mono (hless _) (hless _)

/-- The law holds in every run of plain reports. -/
theorem budget_law (host : Host) (config : BudgetConfig)
    (h : budgetGuard.ReachableUnder Plain records) : BudgetLaw host config Plain records where
  exact agentId _ hnow hpast := (sound h).exact hnow hpast agentId
  grows _ _ hplain hstep agentId := (sound h).grows hplain hstep agentId

/-! ## Reports that are not plain -/

def Cell.integer? : Cell → Option ℤ
  | .integer value => some value
  | .real _ => none

def Cell.number : Cell → Number
  | .integer value => roundDouble value
  | .real value => value

theorem mapM_integer? (values : List ℤ) :
    (values.map Cell.integer).mapM Cell.integer? = some values := by
  induction values with
  | nil => rfl
  | cons value values ih =>
      rw [List.map_cons, List.mapM_cons, ih]
      rfl

theorem abs_sum_le (values : List ℤ) : |values.sum| ≤ ((values.map Int.natAbs).sum : ℕ) := by
  induction values with
  | nil => rfl
  | cons value values ih =>
      rw [List.sum_cons, List.map_cons, List.sum_cons]
      refine (abs_add_le value values.sum).trans ?_
      rw [Nat.cast_add, Int.natCast_natAbs]
      exact add_le_add_right ih |value|

/-- A host that sums up integers exactly up to 64 bits and writes numbers as `String` does. -/
def plainHost : Host where
  sum cells :=
    match cells.mapM Cell.integer? with
    | some values => if |values.sum| < 2 ^ 63 then some (roundDouble values.sum) else none
    | none => some ((cells.map Cell.number).foldl Number.add (.ofInt 0))
  toLocaleString n := String.ofList n.text
  sum_integers values h := by
    have hsmall : |values.sum| ≤ 2 ^ 53 := (abs_sum_le values).trans (by exact_mod_cast h)
    rw [mapM_integer?]
    dsimp only
    rw [if_pos (hsmall.trans_lt (by norm_num)), roundDouble_intCast hsmall]
    rfl

/-! ### A run -/

/-- A limit of 1000 tokens an hour. -/
def smallBudget : BudgetConfig := ⟨some (.ofInt 1000), none, none⟩

/-- A report at noon of the first day of 2026. -/
def reportOf (tokens : ℤ) (stamp : Option Timestamp) : Report :=
  ⟨"agent", .ofInt tokens, .ofInt 0, none, stamp, 1767268800000, 1767268800000⟩

/-- What is stored of such a report. -/
def recordOf (tokens : ℤ) : Record :=
  ⟨⟨"agent", .integer tokens, .integer 0, .integer tokens, none, "2026-01-01T12:00:00.000Z"⟩,
    reportOf tokens none⟩

theorem step_reportOf :
    budgetGuard.step budgetGuard.init (reportOf 1000 none) = some [recordOf 1000] := by
  decide +kernel

theorem plain_reportOf {records : List Record} {tokens : ℕ}
    (h : stored (rowsOf records) "agent" + tokens ≤ 2 ^ 53) :
    Plain records (reportOf tokens none) where
  total := ⟨tokens, 0, tokens, by simp [reportOf, Number.ofInt], rfl, by simp, h⟩
  stamp t ht := nomatch ht
  written _ := (by decide +kernel : FourDigits (yearOf 1767268800000))
  now := (by decide +kernel : InYears 1767268800000)

/-- The law holds behind two reports, the first of which reaches the limit. -/
theorem budget_law_reportOf :
    BudgetLaw plainHost smallBudget Plain [recordOf 1000, recordOf 500] := by
  have hsecond : budgetGuard.step [recordOf 1000] (reportOf 500 none) =
      some [recordOf 1000, recordOf 500] := by decide +kernel
  have hreach : budgetGuard.ReachableUnder Plain [recordOf 1000] :=
    .step .init (plain_reportOf (by decide)) step_reportOf
  exact budget_law plainHost smallBudget (.step hreach (plain_reportOf (by decide)) hsecond)

/-- After a limit is reached, a report of negative usage is a way back. -/
theorem not_grows_negative :
    budgetGuard.Reachable [recordOf 1000] ∧
      budgetGuard.step [recordOf 1000] (reportOf (-500) none) =
        some [recordOf 1000, recordOf (-500)] ∧
      ¬ Grows plainHost smallBudget (rowsOf [recordOf 1000])
        (rowsOf [recordOf 1000, recordOf (-500)]) "agent" (reportOf (-500) none).now := by
  refine ⟨.step .init trivial step_reportOf, by decide +kernel, ?_⟩
  rintro ⟨status, status', hbefore, hafter, -, -, hstays⟩
  have hhard : (getStatus plainHost smallBudget (rowsOf [recordOf 1000]) "agent"
      (reportOf (-500) none).now).map BudgetStatus.status = some .hard_limit := by
    decide +kernel
  have hback : (getStatus plainHost smallBudget (rowsOf [recordOf 1000, recordOf (-500)]) "agent"
      (reportOf (-500) none).now).map BudgetStatus.status = some .ok := by
    decide +kernel
  rw [hbefore] at hhard
  rw [hafter] at hback
  have hok := Option.some.inj hback
  rw [hstays (Option.some.inj hhard)] at hok
  cases hok

end ThinkLocal.Tasks.Budget
