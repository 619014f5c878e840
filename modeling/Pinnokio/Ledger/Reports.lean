import Mathlib.Algebra.BigOperators.Group.Finset.Sigma
import Mathlib.Data.Rat.Floor
import Mathlib.Tactic.FieldSimp
import Mathlib.Tactic.NormNum
import Mathlib.Tactic.Ring
import Pinnokio.Lib.Grouping
import Pinnokio.Lib.Numbers
import Pinnokio.Ledger.ChartOfAccounts
import Pinnokio.Ledger.Journals
import Pinnokio.Ledger.PeriodBalances

/-!
# Reports on the ledger

The reports of `AccountingRPCHandlers` read the rows of `accounting.gl_entries`, joined with the chart of accounts or
with the journals.  Period balances are stored figures; the reports add up the rows themselves.

* `getAccountBalance`, `getJournalSummary`, `comparePeriods` — the reports;
* `balance_of_periods` — **after a successful sync, the balance report of the end of a year adds up to the stored period
  balances** of the years up to it and of its accounts, to all of them, however it is grouped;
* `summary_total` — the journal summary adds up to the total of its period;
* `metrics_add_up_iff` — revenue and expenses make up the net income, in every ledger, exactly when the chart of accounts
  gives every account of the income statement a function, and no other account that of an income.
-/

namespace Pinnokio.Ledger.Reports

open Pinnokio.Grouping Pinnokio.Runs Pinnokio.Ledger.ChartOfAccounts Pinnokio.Ledger.Journals

/-! ### Rows and figures -/

/-- `LIKE`: `%` stands for any text, `_` for any character, and after a backslash (`escaped`) every character stands for
itself. -/
def like : (escaped : Bool) → List Char → List Char → Bool
  | false, [], s => s.isEmpty
  | true, [], _ => false
  | true, c :: p, s =>
      match s with
      | [] => false
      | x :: s => decide (x = c) && like false p s
  | false, c :: p, s =>
      if c = Char.ofNat 92 then like true p s
      else if c = '%' then s.tails.any fun t => like false p t
      else
        match s with
        | [] => false
        | x :: s => (decide (c = '_') || decide (x = c)) && like false p s

/-- `account_number LIKE $2 || '%'`. -/
def isAskedFor (accountNumber account : String) : Bool := like false (accountNumber ++ "%").toList account.toList

/-- The rows of the accounts that are asked for. -/
def matchesPrefix (accountNumber : String) (row : GlRow) : Bool := isAskedFor accountNumber row.columns.accountNumber

example : like false "10_".toList "101".toList = true := by decide

/-- The order of dates. -/
def upTo (d bound : Date) : Bool :=
  decide (d.year < bound.year) ||
    decide (d.year = bound.year) && (decide (d.month < bound.month) ||
      decide (d.month = bound.month) && decide (d.day ≤ bound.day))

/-- `NOT gl.is_deleted AND gl.entry_state = 'posted'`. -/
def posted (row : GlRow) : Bool := !row.isDeleted && decide (row.columns.entryState = "posted")

/-- The rows that the reports read. -/
def postedRows (t : GlTable) : List GlRow := (t.entries.map Prod.snd).filter posted

/-- `gl.entry_date <= $3`; a missing date is not before any. -/
def datedUpTo (asOf : Date) (row : GlRow) : Bool :=
  match row.columns.entryDate with
  | none => false
  | some d => upTo d asOf

/-- `gl.entry_date BETWEEN $2 AND $3`. -/
def datedBetween (first last : Date) (row : GlRow) : Bool :=
  match row.columns.entryDate with
  | none => false
  | some d => upTo first d && upTo d last

/-- Debit, credit and count. -/
abbrev Figures := ℚ × ℚ × ℕ

/-- The figures of a row. -/
def figuresOf (row : GlRow) : Figures := (row.columns.debit, row.columns.credit, 1)

/-- `SUM(gl.debit)`, `SUM(gl.credit)`, `COUNT(*)`. -/
def figures (rows : List GlRow) : Figures := (rows.map figuresOf).sum

/-! ### The balance of accounts -/

/-- `group_by`; every other text means the account. -/
inductive GroupBy where
  | account
  | nature
  | function
  | month

/-- What a group has in common; the name of an account is that of the chart and that of the row. -/
inductive GroupKey where
  | account (number : String) (coaName name : Option String)
  | text (value : Option String)
  | month (value : Option (ℕ × ℕ))
  deriving DecidableEq

/-- The row of the chart of accounts that the join finds. -/
def accountOf (coa : CoaTable) (row : GlRow) : Option CoaRow := coa.get? row.columns.accountNumber

/-- The group of a row. -/
def groupKey (coa : CoaTable) (groupBy : GroupBy) (row : GlRow) : GroupKey :=
  match groupBy with
  | .account => .account row.columns.accountNumber ((accountOf coa row).map CoaRow.accountName) row.columns.accountName
  | .nature => .text ((accountOf coa row).bind CoaRow.accountNature)
  | .function => .text ((accountOf coa row).bind CoaRow.accountFunction)
  | .month => .month (row.columns.entryDate.map fun d => (d.year, d.month))

/-- `COALESCE(coa.account_name, gl.account_name)`. -/
def GroupKey.label : GroupKey → Option String
  | account _ coaName name => coaName.or name
  | _ => none

/-- A row of the report. -/
structure BalanceRow where
  groupKey : GroupKey
  label : Option String
  totalDebit : ℚ
  totalCredit : ℚ
  balance : ℚ
  entryCount : ℕ

/-- The row of a group. -/
def balanceRow (g : GroupKey × List GlRow) : BalanceRow where
  groupKey := g.1
  label := g.1.label
  totalDebit := (figures g.2).1
  totalCredit := (figures g.2).2.1
  balance := (figures g.2).1 - (figures g.2).2.1
  entryCount := (figures g.2).2.2

/-- The rows of the report's accounts up to its date. -/
def balanceRows (t : GlTable) (accountNumber : String) (asOf : Date) : List GlRow :=
  (postedRows t).filter fun row => matchesPrefix accountNumber row && datedUpTo asOf row

/-- `get_account_balance`. -/
def getAccountBalance (coa : CoaTable) (t : GlTable) (accountNumber : String) (asOf : Date) (groupBy : GroupBy) :
    List BalanceRow :=
  (groups (groupKey coa groupBy) (balanceRows t accountNumber asOf)).map balanceRow

/-- The figures of a row of the report. -/
def BalanceRow.figures (r : BalanceRow) : Figures := (r.totalDebit, r.totalCredit, r.entryCount)

/-- **However the report is grouped**, it adds up to its rows. -/
theorem balance_total (coa : CoaTable) (t : GlTable) (accountNumber : String) (asOf : Date) (groupBy : GroupBy) :
    ((getAccountBalance coa t accountNumber asOf groupBy).map BalanceRow.figures).sum =
      figures (balanceRows t accountNumber asOf) := by
  rw [getAccountBalance, List.map_map]
  exact sum_groups (groupKey coa groupBy) figuresOf (balanceRows t accountNumber asOf)

/-! ### The journal summary -/

/-- `SUM(..)::NUMERIC(15,2)`; the sum of no rows is `NULL`. -/
def sumColumn (column : GlRow → ℚ) (rows : List GlRow) : Option ℚ :=
  if rows = [] then none else some (numeric 2 ((rows.map column).sum))

/-- The first date of the rows, in the order `before`. -/
def extremeDate (before : Date → Date → Bool) (rows : List GlRow) : Option Date :=
  (rows.filterMap fun row => row.columns.entryDate).foldl
    (fun best d =>
      match best with
      | none => some d
      | some b => if before d b then some d else some b) none

/-- A row of the summary. -/
structure JournalRowSummary where
  journalCode : String
  journalName : Option String
  journalType : Option String
  entryCount : ℕ
  totalDebit : Option ℚ
  totalCredit : Option ℚ
  firstEntry : Option Date
  lastEntry : Option Date

/-- The code of a row, with the name and the type of its journal. -/
def journalKey (journals : JournalTable) (row : GlRow) : String × Option String × Option String :=
  (row.columns.journalCode, (journals.get? row.columns.journalCode).map JournalRow.journalName,
    (journals.get? row.columns.journalCode).map JournalRow.journalType)

/-- The row of a journal. -/
def journalRow (g : (String × Option String × Option String) × List GlRow) : JournalRowSummary where
  journalCode := g.1.1
  journalName := g.1.2.1
  journalType := g.1.2.2
  entryCount := g.2.length
  totalDebit := sumColumn (fun row => row.columns.debit) g.2
  totalCredit := sumColumn (fun row => row.columns.credit) g.2
  firstEntry := extremeDate upTo g.2
  lastEntry := extremeDate (fun d b => upTo b d) g.2

/-- The rows of a period. -/
def periodOf (t : GlTable) (first last : Date) : List GlRow := (postedRows t).filter (datedBetween first last)

/-- `get_journal_summary`. -/
def getJournalSummary (journals : JournalTable) (t : GlTable) (first last : Date) : List JournalRowSummary :=
  (groups (journalKey journals) (periodOf t first last)).map journalRow

/-! ### The comparison of periods -/

/-- `metric`; every other text means `custom`. -/
inductive Metric where
  | revenue
  | expenses
  | netIncome
  | custom (accountNumber : Option String)

/-- `('income', 'income_other')`. -/
def incomeFunctions : List String := ["income", "income_other"]

/-- `coa.account_nature = 'PROFIT_AND_LOSS'`. -/
def isProfitAndLoss (account : Option CoaRow) : Bool :=
  decide (account.bind CoaRow.accountNature = some "PROFIT_AND_LOSS")

/-- `coa.account_function IN ('income', 'income_other')`; a `NULL` is in no list. -/
def isIncome (account : Option CoaRow) : Bool :=
  match account.bind CoaRow.accountFunction with
  | none => false
  | some f => decide (f ∈ incomeFunctions)

/-- `coa.account_function NOT IN ('income', 'income_other')`; a `NULL` is outside no list either. -/
def isNoIncome (account : Option CoaRow) : Bool :=
  match account.bind CoaRow.accountFunction with
  | none => false
  | some f => decide (f ∉ incomeFunctions)

/-- `where_clause`. -/
def Metric.selects (coa : CoaTable) : Metric → GlRow → Bool
  | revenue, row => isIncome (accountOf coa row)
  | expenses, row => isProfitAndLoss (accountOf coa row) && isNoIncome (accountOf coa row)
  | netIncome, row => isProfitAndLoss (accountOf coa row)
  | custom none, _ => true
  | custom (some accountNumber), row => if accountNumber = "" then true else matchesPrefix accountNumber row

/-- The row of a period. -/
structure PeriodTotal where
  totalDebit : Option ℚ
  totalCredit : Option ℚ
  balance : Option ℚ
  entryCount : ℕ

/-- `_get_period_total`. -/
def getPeriodTotal (coa : CoaTable) (t : GlTable) (metric : Metric) (first last : Date) : PeriodTotal :=
  let rows := (periodOf t first last).filter (metric.selects coa)
  { totalDebit := sumColumn (fun row => row.columns.debit) rows
    totalCredit := sumColumn (fun row => row.columns.credit) rows
    balance := sumColumn (fun row => row.columns.debit - row.columns.credit) rows
    entryCount := rows.length }

/-- `float(p.get("balance") or 0)`. -/
def PeriodTotal.value (p : PeriodTotal) : ℚ := p.balance.getD 0

/-- What `compare_periods` returns. -/
structure Comparison where
  period1 : PeriodTotal
  period2 : PeriodTotal
  absolute : ℚ
  percentage : Option ℚ
  direction : String
  warning : Bool

/-- `compare_periods`. -/
def comparePeriods (coa : CoaTable) (t : GlTable) (metric : Metric) (first1 last1 first2 last2 : Date) : Comparison :=
  let p1 := getPeriodTotal coa t metric first1 last1
  let p2 := getPeriodTotal coa t metric first2 last2
  let variation := p1.value - p2.value
  { period1 := p1
    period2 := p2
    absolute := Numbers.roundTo 2 variation
    percentage := if p2.value = 0 then none else some (Numbers.roundTo 2 (variation / |p2.value| * 100))
    direction := if 0 < variation then "up" else if variation < 0 then "down" else "stable"
    warning :=
      (match metric with | .custom _ => false | _ => true) && decide (p1.entryCount = 0) && decide (p2.entryCount = 0) }

/-! ### What the syncs put into the columns -/

section Columns

variable {hash : Business → String} {P : Columns → Prop} {t : GlTable}

/-- The columns of every row have a property. -/
def Every (P : Columns → Prop) (t : GlTable) : Prop := ∀ id row, t.get? id = some row → P row.columns

theorem Every.upsert (h : Every P t) {e : GlEntry} (he : P e.business.columns) : Every P (upsert hash t e) := by
  intro id row hrow
  rw [get?_upsert] at hrow
  split at hrow
  · cases hrow
    exact he
  · exact h id row hrow

theorem Every.incrementalSync (h : Every P t) {entries : List GlEntry} (he : ∀ e ∈ entries, P e.business.columns) :
    Every P (incrementalSyncGlEntries hash t entries).1 := by
  show Every P (entries.foldl (Ledger.upsert hash) t)
  induction entries generalizing t with
  | nil => exact h
  | cons e entries ih =>
      exact ih (h.upsert (he e List.mem_cons_self)) fun x hx => he x (List.mem_cons_of_mem e hx)

theorem Every.markDeleted (h : Every P t) (ids : List String) : Every P (markDeletedEntries t ids).1 := by
  by_cases hne : ids = []
  · simpa [markDeletedEntries, hne] using h
  · intro id row hrow
    rw [get?_markDeleted t hne] at hrow
    split at hrow
    · obtain ⟨old, hold, rfl⟩ := Option.map_eq_some_iff.mp hrow
      exact h id old hold
    · exact h id row hrow

theorem Every.syncedTable (h : Every P t) {f : Fetch} (he : ∀ e ∈ f.entries, P e.business.columns) :
    Every P (syncedTable hash t f) := by
  unfold Ledger.syncedTable
  dsimp only
  split
  · exact (h.incrementalSync he).markDeleted f.activeIds
  · exact h.incrementalSync he

theorem Every.tableAfter (h : Every P t) {r : SyncRun} (he : ∀ e ∈ r.fetch.entries, P e.business.columns) :
    Every P (tableAfter hash t r) := by
  unfold Ledger.tableAfter
  split
  · split
    · split
      · exact h.incrementalSync he
      · exact h.syncedTable he
    · exact h.syncedTable he
  · exact h

/-- **Along every sequence of syncs** the columns have what the fetched entries have. -/
theorem every_run {runs : List SyncRun} (he : ∀ r ∈ runs, ∀ e ∈ r.fetch.entries, P e.business.columns) :
    Every P (run (fun s r => (syncGlFromErp hash s r).1) LedgerState.empty runs).table := by
  induction runs using List.reverseRecOn with
  | nil =>
      intro id row hrow
      cases hrow
  | append_singleton runs r ih =>
      rw [run_concat, syncGlFromErp_eq, refresh_table]
      have hbefore := ih fun x hx => he x (List.mem_append_left [r] hx)
      exact hbefore.tableAfter (he r (by simp))

/-- What holds of the columns holds of the posted rows. -/
theorem Every.posted (h : Every P t) {row : GlRow} (hrow : row ∈ postedRows t) : P row.columns := by
  obtain ⟨hmem, -⟩ := List.mem_filter.mp hrow
  obtain ⟨⟨id, row'⟩, hentry, rfl⟩ := List.mem_map.mp hmem
  exact h id row' (Dict.mem_entries_iff.mp hentry)

end Columns

/-! ### The balance report and the period balances -/

/-- A date of the calendar, as far as the reports look at it. -/
structure IsCalendar (d : Date) : Prop where
  first : 1 ≤ d.month
  month : d.month ≤ 12
  day : d.day ≤ 31

/-- The date of the columns is one of the calendar. -/
def Dated (c : Columns) : Prop := ∀ d, c.entryDate = some d → IsCalendar d

/-- Up to the end of a year. -/
theorem upTo_endOfYear {d : Date} (hd : IsCalendar d) (year : ℕ) :
    upTo d ⟨year, 12, 31⟩ = decide (d.year ≤ year) := by
  have hmonth := hd.month
  have hday := hd.day
  rw [Bool.eq_iff_iff]
  simp only [upTo, Bool.or_eq_true, Bool.and_eq_true, decide_eq_true_eq]
  omega

/-- The figures of a stored balance. -/
def periodFigures : Option PeriodBalance → Figures
  | none => 0
  | some b => (b.totalDebit, b.totalCredit, b.entryCount)

theorem figures_eq (rows : List GlRow) : figures rows =
    ((rows.map fun row => row.columns.debit).sum, (rows.map fun row => row.columns.credit).sum, rows.length) := by
  induction rows with
  | nil => rfl
  | cons row rows ih =>
      have hcons : figures (row :: rows) = figuresOf row + figures rows := List.sum_cons
      rw [hcons, ih]
      simp only [figuresOf, Prod.mk_add_mk, List.map_cons, List.sum_cons, List.length_cons]
      rw [Nat.add_comm]

theorem periodFigures_aggregate (rows : List GlRow) : periodFigures (aggregate rows) = figures rows := by
  unfold aggregate
  by_cases hrows : rows = []
  · rw [if_pos hrows, hrows]
    rfl
  · rw [if_neg hrows, figures_eq]
    rfl

/-- The year and the month of a row. -/
def yearOf (row : GlRow) : Option ℕ := row.columns.entryDate.map Date.year

@[inherit_doc yearOf]
def monthOf (row : GlRow) : Option ℕ := row.columns.entryDate.map Date.month

/-- The stored balances of some years, months and accounts, added up. -/
def periodSum (s : LedgerState) (years months : List ℕ) (accounts : List String) : Figures :=
  (years.map fun year =>
    (months.map fun month => (accounts.map fun account => periodFigures (s.balances year month account)).sum).sum).sum

/-- A total over keys, of the rows with each of them. -/
theorem sum_figures {K : Type} [DecidableEq K] (key : GlRow → K) (rows : List GlRow) {keys : List K}
    (hkeys : keys.Nodup) : (keys.map fun k => figures (rows.filter fun row => key row = k)).sum =
      figures (rows.filter fun row => key row ∈ keys) :=
  sum_filter_keys key figuresOf rows hkeys

/-- The same for keys that may be missing. -/
theorem sum_figures_some (key : GlRow → Option ℕ) (rows : List GlRow) {keys : List ℕ} (hkeys : keys.Nodup) :
    (keys.map fun k => figures (rows.filter fun row => key row = some k)).sum =
      figures (rows.filter fun row => key row ∈ keys.map some) := by
  have hsum := sum_figures key rows (hkeys.map (Option.some_injective ℕ))
  rw [List.map_map] at hsum
  refine hsum.trans ?_
  congr 1
  apply List.filter_congr
  intro row _
  exact decide_eq_decide.mpr Iff.rfl

theorem sum_accounts (t : GlTable) (year month : ℕ) {accounts : List String} (h : accounts.Nodup) :
    (accounts.map fun account => figures (periodRows t year month account)).sum =
      figures (((yearRows t year).filter fun row => row.columns.accountNumber ∈ accounts).filter
        fun row => monthOf row = some month) := by
  rw [List.filter_comm, ← sum_figures (fun row => row.columns.accountNumber) _ h]
  congr 1
  apply List.map_congr_left
  intro account _
  rw [List.filter_filter]
  congr 1
  apply List.filter_congr
  intro row _
  show (_ && _) = (_ && _)
  rw [Bool.and_comm]
  rfl

theorem sum_months (t : GlTable) (year : ℕ) {months : List ℕ} {accounts : List String} (hm : months.Nodup)
    (ha : accounts.Nodup) :
    (months.map fun month => (accounts.map fun account => figures (periodRows t year month account)).sum).sum =
      figures (((yearRows t year).filter fun row => row.columns.accountNumber ∈ accounts).filter
        fun row => monthOf row ∈ months.map some) := by
  rw [← sum_figures_some monthOf _ hm]
  congr 1
  apply List.map_congr_left
  intro month _
  exact sum_accounts t year month ha

theorem yearRows_eq (t : GlTable) (year : ℕ) :
    yearRows t year = (postedRows t).filter fun row => yearOf row = some year := by
  rw [yearRows, postedRows, List.filter_filter]
  apply List.filter_congr
  intro row _
  show (_ && _ && _) = (_ && (_ && _))
  rw [Bool.and_comm]
  rfl

/-- **The stored balances add up to the rows** of their years, months and accounts. -/
theorem periodSum_eq {s : LedgerState} {years months : List ℕ} {accounts : List String}
    (hagrees : ∀ year, s.Agrees year) (hy : years.Nodup) (hm : months.Nodup) (ha : accounts.Nodup) :
    periodSum s years months accounts = figures ((((postedRows s.table).filter
      fun row => row.columns.accountNumber ∈ accounts).filter fun row => monthOf row ∈ months.map some).filter
        fun row => yearOf row ∈ years.map some) := by
  rw [← sum_figures_some yearOf _ hy]
  show (years.map _).sum = _
  congr 1
  apply List.map_congr_left
  intro year _
  calc (months.map fun month => (accounts.map fun account => periodFigures (s.balances year month account)).sum).sum
      = (months.map fun month => (accounts.map fun account => figures (periodRows s.table year month account)).sum).sum := by
        simp only [hagrees year _ _, periodFigures_aggregate]
    _ = figures (((yearRows s.table year).filter fun row => row.columns.accountNumber ∈ accounts).filter
          fun row => monthOf row ∈ months.map some) := sum_months s.table year hm ha
    _ = _ := by
        rw [yearRows_eq]
        simp only [List.filter_filter]
        congr 1
        apply List.filter_congr
        intro row _
        ac_rfl

/-- The accounts of the report with posted rows. -/
def bookedAccounts (t : GlTable) (accountNumber : String) : List String :=
  (((postedRows t).filter (matchesPrefix accountNumber)).map fun row => row.columns.accountNumber).dedup

/-- After a successful sync, all stored balances are those of the rows. -/
theorem agrees_after_success {hash : Business → String} {runs : List SyncRun}
    (hg : Guarded (account hash) (Settles hash) Books.empty runs) {pre : List SyncRun} {r : SyncRun}
    (hpre : pre ++ [r] <+: runs)
    (hsuccess : (syncGlFromErp hash (run (fun s r => (syncGlFromErp hash s r).1) LedgerState.empty pre) r).2 = true)
    (year : ℕ) : (run (fun s r => (syncGlFromErp hash s r).1) LedgerState.empty (pre ++ [r])).Agrees year := by
  have hupToDate : (run (account hash) Books.empty (pre ++ [r])).UpToDate := upToDate_run (pre ++ [r])
  have hsettles := hg.at_prefix hpre
  rw [← state_run] at hsuccess ⊢
  apply hupToDate year
  rw [run_concat]
  rintro ⟨hchange, hmissed⟩
  rw [syncGlFromErp_eq] at hsuccess
  exact hmissed (hsettles hsuccess year hchange)

/-- The dates of the rows are those of the calendar, when those of the fetched lines are. -/
theorem dated_run (hash : Business → String) {runs : List SyncRun}
    (hdates : ∀ r ∈ runs, ∀ line ∈ r.fetch.lines, ∀ d, line.date = some d → IsCalendar d) :
    Every Dated (run (fun s r => (syncGlFromErp hash s r).1) LedgerState.empty runs).table := by
  apply every_run
  intro r hr e he
  obtain ⟨line, hline, rfl⟩ := List.mem_map.mp he
  exact hdates r hr line hline

/-- Of a ledger whose stored balances are those of its rows, over the accounts with rows. -/
theorem balance_of_agreeing {s : LedgerState} (hagrees : ∀ year, s.Agrees year) (hevery : Every Dated s.table)
    (coa : CoaTable) (accountNumber : String) (year : ℕ) (groupBy : GroupBy) :
    ((getAccountBalance coa s.table accountNumber ⟨year, 12, 31⟩ groupBy).map BalanceRow.figures).sum =
      periodSum s (List.range (year + 1)) (List.range' 1 12) (bookedAccounts s.table accountNumber) := by
  have haccounts : (bookedAccounts s.table accountNumber).Nodup := List.nodup_dedup _
  rw [balance_total, periodSum_eq hagrees List.nodup_range List.nodup_range' haccounts]
  rw [List.filter_filter, List.filter_filter]
  show figures (List.filter _ _) = _
  congr 1
  apply List.filter_congr
  intro row hrow
  have hdated : Dated row.columns := hevery.posted hrow
  rw [Bool.eq_iff_iff]
  simp only [Bool.and_eq_true, decide_eq_true_eq]
  constructor
  · intro h
    obtain ⟨hmatch, hdate⟩ := h
    cases hd : row.columns.entryDate with
    | none =>
        rw [datedUpTo, hd] at hdate
        cases hdate
    | some d =>
        rw [datedUpTo, hd] at hdate
        have hcalendar := hdated d hd
        replace hdate : d.year ≤ year := by
          have hupTo : upTo d ⟨year, 12, 31⟩ = true := hdate
          rw [upTo_endOfYear hcalendar] at hupTo
          exact of_decide_eq_true hupTo
        have hyear : yearOf row = some d.year := by simp [yearOf, hd]
        have hmonth : monthOf row = some d.month := by simp [monthOf, hd]
        refine ⟨⟨?_, ?_⟩, ?_⟩
        · rw [hyear]
          exact List.mem_map_of_mem (List.mem_range.mpr (Nat.lt_succ_of_le hdate))
        · rw [hmonth]
          have hfirst := hcalendar.first
          have hlast := hcalendar.month
          refine List.mem_map_of_mem (List.mem_range'_1.mpr ⟨hfirst, ?_⟩)
          omega
        · exact List.mem_dedup.mpr (List.mem_map.mpr ⟨row, List.mem_filter.mpr ⟨hrow, hmatch⟩, rfl⟩)
  · intro h
    obtain ⟨⟨hyear, -⟩, haccount⟩ := h
    constructor
    · obtain ⟨other, hother, heq⟩ := List.mem_map.mp (List.mem_dedup.mp haccount)
      have hmatch : matchesPrefix accountNumber other = true := (List.mem_filter.mp hother).2
      rw [matchesPrefix, ← heq]
      exact hmatch
    · obtain ⟨y, hy, heq⟩ := List.mem_map.mp hyear
      obtain ⟨d, hd, rfl⟩ := Option.map_eq_some_iff.mp heq.symm
      have hle : d.year ≤ year := Nat.le_of_lt_succ (List.mem_range.mp hy)
      rw [datedUpTo, hd]
      show upTo d ⟨year, 12, 31⟩ = true
      rw [upTo_endOfYear (hdated d hd)]
      exact decide_eq_true hle

/-- The stored balances of the years up to one, and of the accounts that are asked for: year, month and account. -/
def storedUpTo (s : LedgerState) (accountNumber : String) (year : ℕ) : Set (ℕ × ℕ × String) :=
  {k | k.1 ≤ year ∧ isAskedFor accountNumber k.2.2 = true ∧ (s.balances k.1 k.2.1 k.2.2).isSome}

/-- A sum over lists is one over their pairs. -/
theorem periodSum_eq_sum (s : LedgerState) {years months : List ℕ} {accounts : List String} (hy : years.Nodup)
    (hm : months.Nodup) (ha : accounts.Nodup) : periodSum s years months accounts =
      ∑ k ∈ years.toFinset ×ˢ (months.toFinset ×ˢ accounts.toFinset), periodFigures (s.balances k.1 k.2.1 k.2.2) := by
  rw [Finset.sum_product, List.sum_toFinset _ hy]
  show (years.map _).sum = _
  congr 1
  apply List.map_congr_left
  intro year _
  rw [Finset.sum_product, List.sum_toFinset _ hm]
  congr 1
  apply List.map_congr_left
  intro month _
  rw [List.sum_toFinset _ ha]

/-- A stored balance that agrees with the rows has a row. -/
theorem exists_row_of_isSome {s : LedgerState} {year month : ℕ} {account : String} (hagrees : s.Agrees year)
    (h : (s.balances year month account).isSome) :
    ∃ row ∈ postedRows s.table, yearOf row = some year ∧ monthOf row = some month ∧
      row.columns.accountNumber = account := by
  rw [hagrees month account] at h
  have hrows : periodRows s.table year month account ≠ [] := by
    intro hnil
    rw [hnil] at h
    cases h
  obtain ⟨row, hrow⟩ := List.exists_mem_of_ne_nil _ hrows
  obtain ⟨hyear, hboth⟩ := List.mem_filter.mp hrow
  rw [yearRows_eq, List.mem_filter, decide_eq_true_eq] at hyear
  rw [Bool.and_eq_true, decide_eq_true_eq, decide_eq_true_eq] at hboth
  exact ⟨row, hyear.1, hyear.2, hboth.1, hboth.2⟩

/-- Of a ledger whose stored balances are those of its rows, the stored balances are those of calendar months and of
accounts with rows. -/
theorem mem_storedUpTo_iff {s : LedgerState} (hagrees : ∀ year, s.Agrees year) (hevery : Every Dated s.table)
    (accountNumber : String) (year : ℕ) (k : ℕ × ℕ × String) :
    k ∈ storedUpTo s accountNumber year ↔
      (k.1 ∈ List.range (year + 1) ∧ k.2.1 ∈ List.range' 1 12 ∧ k.2.2 ∈ bookedAccounts s.table accountNumber) ∧
        (s.balances k.1 k.2.1 k.2.2).isSome := by
  constructor
  · rintro ⟨hyear, hasked, hsome⟩
    obtain ⟨row, hrow, hrowYear, hrowMonth, haccount⟩ := exists_row_of_isSome (hagrees k.1) hsome
    obtain ⟨d, hd, hmonth⟩ := Option.map_eq_some_iff.mp hrowMonth
    have hcalendar := (hevery.posted hrow : Dated row.columns) d hd
    have hfirst := hcalendar.first
    have hlast := hcalendar.month
    refine ⟨⟨List.mem_range.mpr (Nat.lt_succ_of_le hyear), List.mem_range'_1.mpr (by omega), ?_⟩, hsome⟩
    refine List.mem_dedup.mpr (List.mem_map.mpr ⟨row, List.mem_filter.mpr ⟨hrow, ?_⟩, haccount⟩)
    rw [matchesPrefix, haccount]
    exact hasked
  · rintro ⟨⟨hyear, -, haccount⟩, hsome⟩
    obtain ⟨row, hrow, heq⟩ := List.mem_map.mp (List.mem_dedup.mp haccount)
    have hmatch : matchesPrefix accountNumber row = true := (List.mem_filter.mp hrow).2
    rw [matchesPrefix, heq] at hmatch
    exact ⟨Nat.le_of_lt_succ (List.mem_range.mp hyear), hmatch, hsome⟩

/-- **The balance report and the period balances agree**: after a successful sync, in every sequence of syncs in which
the successful ones refresh the years with a change, the stored balances of the years up to one and of the accounts of a
report are finitely many, and the report of the end of that year adds up to them, for every chart of accounts, every
pattern and every grouping. -/
theorem balance_of_periods {hash : Business → String} {runs : List SyncRun}
    (hg : Guarded (account hash) (Settles hash) Books.empty runs)
    (hdates : ∀ r ∈ runs, ∀ line ∈ r.fetch.lines, ∀ d, line.date = some d → IsCalendar d)
    {pre : List SyncRun} {r : SyncRun} (hpre : pre ++ [r] <+: runs)
    (hsuccess : (syncGlFromErp hash (run (fun s r => (syncGlFromErp hash s r).1) LedgerState.empty pre) r).2 = true)
    {s : LedgerState} (hs : s = run (fun s r => (syncGlFromErp hash s r).1) LedgerState.empty (pre ++ [r]))
    (coa : CoaTable) (accountNumber : String) (year : ℕ) (groupBy : GroupBy) :
    ∃ keys : Finset (ℕ × ℕ × String), (∀ k, k ∈ keys ↔ k ∈ storedUpTo s accountNumber year) ∧
      ((getAccountBalance coa s.table accountNumber ⟨year, 12, 31⟩ groupBy).map BalanceRow.figures).sum =
        ∑ k ∈ keys, periodFigures (s.balances k.1 k.2.1 k.2.2) := by
  have hagrees : ∀ year, s.Agrees year := by
    rw [hs]
    exact agrees_after_success hg hpre hsuccess
  have hevery : Every Dated s.table := by
    rw [hs]
    exact dated_run hash fun x hx => hdates x (hpre.subset hx)
  have haccounts : (bookedAccounts s.table accountNumber).Nodup := List.nodup_dedup _
  rw [balance_of_agreeing hagrees hevery coa accountNumber year groupBy,
    periodSum_eq_sum s List.nodup_range List.nodup_range' haccounts]
  refine ⟨Finset.filter (fun k => (s.balances k.1 k.2.1 k.2.2).isSome) _, fun k => ?_,
    (Finset.sum_filter_of_ne fun k _ hfigures => ?_).symm⟩
  · rw [mem_storedUpTo_iff hagrees hevery, Finset.mem_filter, Finset.mem_product, Finset.mem_product, List.mem_toFinset,
      List.mem_toFinset, List.mem_toFinset]
  · by_contra hnone
    rw [Option.not_isSome_iff_eq_none] at hnone
    rw [hnone] at hfigures
    exact hfigures rfl

/-- One successful sync of three years: the balances of two of them make up the report of the second year. -/
theorem balance_of_periods_three_years :
    let s := run (fun s r => (syncGlFromErp Business.entryId s r).1) LedgerState.empty ([] ++ [settlingSync])
    (∃ keys : Finset (ℕ × ℕ × String), (∀ k, k ∈ keys ↔ k ∈ storedUpTo s "10" 2024) ∧
      ((getAccountBalance ∅ s.table "10" ⟨2024, 12, 31⟩ .month).map BalanceRow.figures).sum =
        ∑ k ∈ keys, periodFigures (s.balances k.1 k.2.1 k.2.2)) ∧
      ((getAccountBalance ∅ s.table "10" ⟨2024, 12, 31⟩ .month).map BalanceRow.figures).sum = (2, 0, 2) ∧
      (2023, 1, "1020") ∈ storedUpTo s "10" 2024 ∧ (2024, 1, "1020") ∈ storedUpTo s "10" 2024 := by
  intro s
  have hrefreshed : refreshedYears Business.entryId Books.empty.state.table settlingSync = [2023, 2024, 2025] := by
    decide +kernel
  have hsettled : settlingSync.fetch.impactedYears = [2023, 2024, 2025] := by decide +kernel
  have hg : Guarded (account Business.entryId) (Settles Business.entryId) Books.empty ([] ++ [settlingSync]) := by
    refine ⟨fun _ year hyear => ?_, trivial⟩
    rw [hrefreshed]
    rcases hyear with hempty | hchanges
    · cases hempty
    · rcases changesYear_years hchanges with hy | hy
      · exact hsettled ▸ hy
      · cases hy
  refine ⟨balance_of_periods hg ?_ (List.prefix_refl _) (by decide +kernel) rfl ∅ "10" 2024 .month, by decide +kernel,
    ⟨by decide, by decide +kernel, by decide +kernel⟩, ⟨by decide, by decide +kernel, by decide +kernel⟩⟩
  intro r hr line hline d hd
  obtain rfl := List.mem_singleton.mp hr
  obtain ⟨year, -, rfl⟩ := List.mem_map.mp hline
  obtain rfl := Option.some.inj hd
  exact ⟨Nat.le_refl 1, show 1 ≤ 12 by decide, show 1 ≤ 31 by decide⟩

/-! ### Metrics and summaries -/

/-- A whole number of cents. -/
def InCents (x : ℚ) : Prop := ∃ n : ℤ, x = n / 100

/-- The amounts of the columns are in cents. -/
def CentColumns (c : Columns) : Prop := InCents c.debit ∧ InCents c.credit

theorem InCents.zero : InCents 0 := ⟨0, by simp⟩

theorem InCents.add {x y : ℚ} (hx : InCents x) (hy : InCents y) : InCents (x + y) := by
  obtain ⟨m, rfl⟩ := hx
  obtain ⟨n, rfl⟩ := hy
  exact ⟨m + n, by push_cast; ring⟩

theorem InCents.sub {x y : ℚ} (hx : InCents x) (hy : InCents y) : InCents (x - y) := by
  obtain ⟨m, rfl⟩ := hx
  obtain ⟨n, rfl⟩ := hy
  exact ⟨m - n, by push_cast; ring⟩

theorem InCents.sum {xs : List ℚ} (h : ∀ x ∈ xs, InCents x) : InCents xs.sum := by
  induction xs with
  | nil => exact .zero
  | cons x xs ih =>
      rw [List.sum_cons]
      exact (h x List.mem_cons_self).add (ih fun y hy => h y (List.mem_cons_of_mem x hy))

/-- **The column type** keeps an amount in cents. -/
theorem numeric_of_inCents {x : ℚ} (h : InCents x) : numeric 2 x = x := by
  obtain ⟨n, rfl⟩ := h
  have habs : |(n : ℚ) / 100| * 10 ^ 2 = ((|n| : ℤ) : ℚ) := by
    rw [abs_div, Int.cast_abs, abs_of_pos (show (0 : ℚ) < 100 by norm_num)]
    ring
  have hfloor : (|(n : ℚ) / 100| * 10 ^ 2 + 1 / 2).floor = |n| := by
    rw [habs]
    show ⌊((|n| : ℤ) : ℚ) + 1 / 2⌋ = |n|
    apply Int.floor_eq_iff.mpr
    constructor <;> linarith
  have hneg : (n : ℚ) / 100 < 0 ↔ n < 0 := by
    rw [div_neg_iff]
    constructor
    · rintro (⟨-, h⟩ | ⟨h, -⟩)
      · norm_num at h
      · exact_mod_cast h
    · intro h
      exact .inr ⟨by exact_mod_cast h, by norm_num⟩
  unfold numeric
  rw [hfloor]
  by_cases hn : n < 0
  · simp only [if_pos (hneg.mpr hn), abs_of_neg hn, neg_neg]
    norm_num
  · simp only [if_neg (mt hneg.mp hn), abs_of_nonneg (not_lt.mp hn)]
    norm_num

/-- The amounts of a synced ledger are in cents. -/
theorem cents_run (hash : Business → String) (runs : List SyncRun) :
    Every CentColumns (run (fun s r => (syncGlFromErp hash s r).1) LedgerState.empty runs).table := by
  have hnumeric : ∀ x : ℚ, InCents (numeric 2 x) := by
    intro x
    refine ⟨if x < 0 then -(|x| * 10 ^ 2 + 1 / 2).floor else (|x| * 10 ^ 2 + 1 / 2).floor, ?_⟩
    unfold numeric
    split <;> norm_num
  exact every_run fun _ _ e _ => ⟨hnumeric _, hnumeric _⟩

section Totals

variable {t : GlTable} (ht : Every CentColumns t)
include ht

/-- The rows of a period, and what is selected of them, are rows of the table. -/
theorem cents_periodOf {first last : Date} {row : GlRow} (hrow : row ∈ periodOf t first last) :
    CentColumns row.columns :=
  ht.posted (List.mem_filter.mp hrow).1

/-- A total in cents, of no rows too. -/
theorem sumColumn_getD {first last : Date} {rows : List GlRow} (hrows : ∀ row ∈ rows, row ∈ periodOf t first last)
    {column : GlRow → ℚ} (hcolumn : ∀ row : GlRow, CentColumns row.columns → InCents (column row)) :
    (sumColumn column rows).getD 0 = (rows.map column).sum := by
  unfold sumColumn
  by_cases hempty : rows = []
  · rw [if_pos hempty, hempty]
    rfl
  · rw [if_neg hempty]
    apply numeric_of_inCents
    apply InCents.sum
    intro x hx
    obtain ⟨row, hrow, rfl⟩ := List.mem_map.mp hx
    exact hcolumn row (cents_periodOf ht (hrows row hrow))

/-- The balance that is compared. -/
theorem value_eq (coa : CoaTable) (metric : Metric) (first last : Date) :
    (getPeriodTotal coa t metric first last).value =
      (((periodOf t first last).filter (metric.selects coa)).map fun row =>
        row.columns.debit - row.columns.credit).sum :=
  sumColumn_getD ht (fun _ hrow => (List.mem_filter.mp hrow).1) fun _ hc => hc.1.sub hc.2

end Totals

/-- The figures of a row of the summary. -/
def JournalRowSummary.figures (r : JournalRowSummary) : Figures :=
  (r.totalDebit.getD 0, r.totalCredit.getD 0, r.entryCount)

/-- The figures of a period. -/
def PeriodTotal.figures (p : PeriodTotal) : Figures := (p.totalDebit.getD 0, p.totalCredit.getD 0, p.entryCount)

/-- **The journal summary** adds up to the total of its period. -/
theorem summary_total (journals : JournalTable) (coa : CoaTable) {t : GlTable} (ht : Every CentColumns t)
    (first last : Date) : ((getJournalSummary journals t first last).map JournalRowSummary.figures).sum =
      (getPeriodTotal coa t (.custom none) first last).figures := by
  have hfigures : ∀ rows : List GlRow, (∀ row ∈ rows, row ∈ periodOf t first last) →
      ((sumColumn (fun row => row.columns.debit) rows).getD 0, (sumColumn (fun row => row.columns.credit) rows).getD 0,
        rows.length) = figures rows := by
    intro rows hrows
    rw [figures_eq, sumColumn_getD ht hrows fun _ hc => hc.1, sumColumn_getD ht hrows fun _ hc => hc.2]
  have hall : (periodOf t first last).filter (Metric.selects coa (.custom none)) = periodOf t first last :=
    List.filter_eq_self.mpr fun _ _ => rfl
  have htotal : (getPeriodTotal coa t (.custom none) first last).figures = figures (periodOf t first last) := by
    rw [← hfigures _ fun _ h => h]
    simp only [PeriodTotal.figures, getPeriodTotal, hall]
  rw [htotal, getJournalSummary, List.map_map]
  refine Eq.trans ?_ (sum_groups (journalKey journals) figuresOf (periodOf t first last))
  congr 1
  apply List.map_congr_left
  intro g hg
  obtain ⟨k, -, rfl⟩ := List.mem_map.mp hg
  exact hfigures _ fun _ hrow => (List.mem_filter.mp hrow).1

/-- The chart gives every account of the income statement a function, and no other account that of an income. -/
def Coherent (coa : CoaTable) : Prop :=
  ∀ number row, coa.get? number = some row →
    (isIncome (some row) = true → isProfitAndLoss (some row) = true) ∧
      (isProfitAndLoss (some row) = true → row.accountFunction ≠ none)

/-- A row of one franc on an account. -/
def oneRow (accountNumber : String) : GlRow where
  columns := ⟨some ⟨2024, 1, 1⟩, "BNK", none, accountNumber, none, none, none, 1, 0, none, "posted", "CHF", 1, none, none⟩
  lastUpdateDate := none
  pinnokioHash := ""
  pinnokioVersion := 0
  isDeleted := false

theorem value_oneRow (coa : CoaTable) (accountNumber : String) (metric : Metric) :
    (getPeriodTotal coa ((∅ : GlTable).set "1" (oneRow accountNumber)) metric ⟨2024, 1, 1⟩ ⟨2024, 12, 31⟩).value =
      if metric.selects coa (oneRow accountNumber) = true then 1 else 0 := by
  have hrows : periodOf ((∅ : GlTable).set "1" (oneRow accountNumber)) ⟨2024, 1, 1⟩ ⟨2024, 12, 31⟩ =
      [oneRow accountNumber] := by rfl
  show (sumColumn _ ((periodOf _ _ _).filter _)).getD 0 = _
  rw [hrows]
  cases hselects : metric.selects coa (oneRow accountNumber) with
  | true =>
      rw [List.filter_cons_of_pos hselects, List.filter_nil, if_pos rfl]
      show numeric 2 (1 - 0 + 0) = 1
      rw [numeric_of_inCents ⟨100, by norm_num⟩]
      norm_num
  | false =>
      rw [List.filter_cons_of_neg (by simp [hselects]), List.filter_nil]
      rfl

theorem cents_oneRow (accountNumber : String) :
    Every CentColumns ((∅ : GlTable).set "1" (oneRow accountNumber)) := by
  intro id row hrow
  rw [Dict.get?_set] at hrow
  split at hrow
  · cases hrow
    exact ⟨⟨100, by norm_num [oneRow]⟩, .zero⟩
  · cases hrow

/-- In one period: the metrics add up in every ledger exactly when the chart of accounts is coherent. -/
theorem period_adds_up_iff (coa : CoaTable) :
    (∀ t, Every CentColumns t → ∀ first last, (getPeriodTotal coa t .netIncome first last).value =
      (getPeriodTotal coa t .revenue first last).value + (getPeriodTotal coa t .expenses first last).value) ↔
      Coherent coa := by
  constructor
  · intro h number row hrow
    have haccount : accountOf coa (oneRow number) = some row := hrow
    have hsum := h _ (cents_oneRow number) ⟨2024, 1, 1⟩ ⟨2024, 12, 31⟩
    rw [value_oneRow, value_oneRow, value_oneRow] at hsum
    simp only [Metric.selects, haccount] at hsum
    constructor
    · intro hincome
      by_contra hnot
      simp [hincome, hnot] at hsum
    · intro hpl hnone
      have hincome : isIncome (some row) = false := by simp [isIncome, hnone]
      have hother : isNoIncome (some row) = false := by simp [isNoIncome, hnone]
      simp [hpl, hincome, hother] at hsum
  · intro h t ht first last
    rw [value_eq ht, value_eq ht, value_eq ht]
    have hclass : ∀ account : Option CoaRow, (∃ number, account = coa.get? number) →
        (isProfitAndLoss account && isIncome account) = isIncome account ∧
          (isProfitAndLoss account && !isIncome account) = (isProfitAndLoss account && isNoIncome account) := by
      rintro account ⟨number, rfl⟩
      cases hrow : coa.get? number with
      | none => exact ⟨rfl, rfl⟩
      | some row =>
          obtain ⟨hincome, hfunction⟩ := h number row hrow
          constructor
          · cases hi : isIncome (some row) with
            | true => rw [hincome hi]; rfl
            | false => exact Bool.and_false _
          · cases hp : isProfitAndLoss (some row) with
            | true =>
                obtain ⟨f, hf⟩ := Option.ne_none_iff_exists'.mp (hfunction hp)
                simp [isIncome, isNoIncome, hf]
            | false => rfl
    -- the accounts of the income statement, with an income and without
    rw [← sum_filter_add (fun row => isIncome (accountOf coa row)) _
      ((periodOf t first last).filter (Metric.selects coa .netIncome)), List.filter_filter, List.filter_filter]
    congr 3
    · apply List.filter_congr
      intro row _
      exact (Bool.and_comm _ _).trans (hclass _ ⟨_, rfl⟩).1
    · apply List.filter_congr
      intro row _
      exact (Bool.and_comm _ _).trans (hclass _ ⟨_, rfl⟩).2

/-- **The metrics add up** in both periods of a comparison, in every ledger, exactly when the chart of accounts is
coherent. -/
theorem metrics_add_up_iff (coa : CoaTable) :
    (∀ t, Every CentColumns t → ∀ first1 last1 first2 last2,
      let compared := fun metric => comparePeriods coa t metric first1 last1 first2 last2
      (compared .netIncome).period1.value = (compared .revenue).period1.value + (compared .expenses).period1.value ∧
        (compared .netIncome).period2.value =
          (compared .revenue).period2.value + (compared .expenses).period2.value) ↔
      Coherent coa := by
  rw [← period_adds_up_iff]
  constructor
  · intro h t ht first last
    exact (h t ht first last first last).1
  · intro h t ht first1 last1 first2 last2
    exact ⟨h t ht first1 last1, h t ht first2 last2⟩

end Pinnokio.Ledger.Reports
