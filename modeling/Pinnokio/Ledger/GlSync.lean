import Mathlib.Data.Countable.Basic
import Mathlib.Data.Rat.Encodable
import Mathlib.Logic.Equiv.List
import Pinnokio.Ledger.GlEntries
import Pinnokio.Lib.Numbers
import Pinnokio.Lib.Runs

/-!
# A sync of the general ledger

`sync_gl_from_erp` stores the fetched lines, marks the missing ones if the sync is a full one, and refreshes the
balances of the years it has fetched lines of.  The store of the lines, the marking and the refresh of each year are
transactions of their own.

* `doGlSync`, `syncGlFromErp` — the sync, with the statement that fails;
* `hashed_run` — along every sequence of syncs the rows show the data their hash is of;
* `full_sync_mirrors_iff` — after a full sync the live rows are the fetched entries, exactly when none of these has a
  deleted row with its hash.
-/

namespace Pinnokio.Ledger

open Pinnokio.Runs

/-! ### Period balances -/

/-- The figures of a row of `accounting.period_balances`. -/
structure PeriodBalance where
  totalDebit : ℚ
  totalCredit : ℚ
  balance : ℚ
  entryCount : ℕ
  deriving DecidableEq

/-- The tables of a company; `balances` is `accounting.period_balances` by fiscal year, month and account. -/
structure LedgerState where
  table : GlTable
  balances : ℕ → ℕ → String → Option PeriodBalance

/-- Before the first sync. -/
def LedgerState.empty : LedgerState := ⟨∅, fun _ _ _ => none⟩

/-- A posted row of the year that is not deleted. -/
def GlRow.countsIn (year : ℕ) (row : GlRow) : Bool :=
  !row.isDeleted && decide (row.columns.entryState = "posted") &&
    decide (row.columns.entryDate.map Date.year = some year)

/-- The rows that count in a year. -/
def yearRows (t : GlTable) (year : ℕ) : List GlRow := (t.entries.map Prod.snd).filter (GlRow.countsIn year)

/-- The group of a month and an account. -/
def periodRows (t : GlTable) (year month : ℕ) (account : String) : List GlRow :=
  (yearRows t year).filter fun row =>
    decide (row.columns.entryDate.map Date.month = some month) && decide (row.columns.accountNumber = account)

/-- The aggregate of a group; there is no row for an empty one. -/
def aggregate (rows : List GlRow) : Option PeriodBalance :=
  if rows = [] then none
  else
    let totalDebit := (rows.map fun row => row.columns.debit).sum
    let totalCredit := (rows.map fun row => row.columns.credit).sum
    some ⟨totalDebit, totalCredit, totalDebit - totalCredit, rows.length⟩

/-- `refresh_period_balances`: the rows of the year are deleted and computed again. -/
def refreshPeriodBalances (s : LedgerState) (fiscalYear : ℕ) : LedgerState :=
  { s with balances := fun year month account =>
      if year = fiscalYear then aggregate (periodRows s.table year month account)
      else s.balances year month account }

/-! ### The sync -/

/-- What a sync fetches from the ERP. -/
structure Fetch where
  forceFull : Bool
  journalIdToCode : Dict ℤ String
  lines : List OdooLine
  distinct : (lines.map OdooLine.id).Nodup

/-- The fetched entries. -/
def Fetch.entries (f : Fetch) : List GlEntry := f.lines.map (odooGlToNeonEntry f.journalIdToCode)

/-- `[e["entry_id"] for e in entries if e.get("entry_id")]`. -/
def Fetch.activeIds (f : Fetch) : List String := (f.entries.map GlEntry.entryId).filter fun id => id ≠ ""

/-- `impacted_years`; the order in which the years are refreshed is not specified. -/
def Fetch.impactedYears (f : Fetch) : List ℕ := (f.entries.filterMap fun e => e.entryDate.map Date.year).dedup

/-- The statement that raises: one of those before the lines are stored or their transaction, the marking, the refresh
of a year after those of `done`, or the last one. -/
inductive SyncFault where
  | store
  | markDeleted
  | refresh (done : List ℕ)
  | finish

section Sync

variable (hash : Business → String)

/-- The table after the marking. -/
def syncedTable (t : GlTable) (f : Fetch) : GlTable :=
  let t := (incrementalSyncGlEntries hash t f.entries).1
  if f.forceFull then (markDeletedEntries t f.activeIds).1 else t

/-- The counters say that a line was added or modified. -/
def storesSome (t : GlTable) (f : Fetch) : Bool :=
  let stats := (incrementalSyncGlEntries hash t f.entries).2
  decide (stats.added > 0) || decide (stats.modified > 0)

/-- `_do_gl_sync`; the second component is `false` when it raises. -/
def doGlSync (fault : Option SyncFault) (s : LedgerState) (f : Fetch) : LedgerState × Bool :=
  if f.lines = [] then (s, true)
  else
    let stored := { s with table := (incrementalSyncGlEntries hash s.table f.entries).1 }
    let synced := { s with table := syncedTable hash s.table f }
    match fault with
    | some .store => (s, false)
    | some .markDeleted =>
        if f.forceFull then (stored, false)
        else if storesSome hash s.table f then (f.impactedYears.foldl refreshPeriodBalances synced, true)
        else (synced, true)
    | some (.refresh done) =>
        if storesSome hash s.table f ∧ f.impactedYears ≠ [] then
          ((done.filter fun y => y ∈ f.impactedYears).foldl refreshPeriodBalances synced, false)
        else (synced, true)
    | _ =>
        if storesSome hash s.table f then (f.impactedYears.foldl refreshPeriodBalances synced, true)
        else (synced, true)

/-- A sync and the statement that fails in it, if one does. -/
structure SyncRun where
  fetch : Fetch
  fault : Option SyncFault

/-- `sync_gl_from_erp`; the second component is `success`.  A statement before the lines are stored may fail for an
empty fetch, too. -/
def syncGlFromErp (s : LedgerState) (r : SyncRun) : LedgerState × Bool :=
  match r.fault with
  | some .store => (s, false)
  | some .finish => ((doGlSync hash r.fault s r.fetch).1, false)
  | _ => doGlSync hash r.fault s r.fetch

/-- One sync without a failure. -/
def sync (s : LedgerState) (f : Fetch) : LedgerState := (doGlSync hash none s f).1

end Sync

/-! ### What a sync leaves in the table -/

section Table

variable {hash : Business → String}

theorem refresh_table (years : List ℕ) (s : LedgerState) :
    (years.foldl refreshPeriodBalances s).table = s.table := by
  induction years generalizing s with
  | nil => rfl
  | cons y years ih =>
      rw [List.foldl_cons, ih]
      rfl

theorem sync_table (s : LedgerState) (f : Fetch) :
    (sync hash s f).table = if f.lines = [] then s.table else syncedTable hash s.table f := by
  unfold sync doGlSync
  split
  · rfl
  · dsimp only
    split
    · rw [refresh_table]
    · rfl

theorem Fetch.entries_nodup (f : Fetch) : (f.entries.map GlEntry.entryId).Nodup := by
  rw [Fetch.entries, List.map_map]
  have hid : GlEntry.entryId ∘ odooGlToNeonEntry f.journalIdToCode = toString ∘ OdooLine.id := rfl
  rw [hid, ← List.map_map]
  exact f.distinct.map Numbers.toString_int_injective

/-- Every fetched id is active. -/
theorem Fetch.mem_activeIds (f : Fetch) (id : String) :
    id ∈ f.activeIds ↔ id ∈ f.entries.map GlEntry.entryId := by
  unfold Fetch.activeIds
  rw [List.mem_filter]
  refine and_iff_left_of_imp fun hid => ?_
  obtain ⟨e, he, rfl⟩ := List.mem_map.mp hid
  obtain ⟨l, -, rfl⟩ := List.mem_map.mp he
  have hne : Int.repr l.id ≠ "" := by
    cases l.id with
    | ofNat n => exact Nat.repr_ne_empty
    | negSucc n => simp [Int.repr]
  exact decide_eq_true hne

theorem hashed_sync {s : LedgerState} (h : Hashed hash s.table) (f : Fetch) : Hashed hash (sync hash s f).table := by
  rw [sync_table]
  split
  · exact h
  · unfold syncedTable
    dsimp only
    split
    · exact (h.incrementalSync f.entries).markDeleted _
    · exact h.incrementalSync f.entries

/-- **Along every sequence of syncs** the rows show the data their hash is of. -/
theorem hashed_run (runs : List Fetch) : Hashed hash (run (sync hash) LedgerState.empty runs).table := by
  induction runs using List.reverseRecOn with
  | nil => exact Hashed.empty
  | append_singleton runs f ih =>
      rw [run_concat]
      exact hashed_sync ih f

end Table

/-! ### The mirror of the ERP -/

/-- The live rows of the table are the entries, each with its data. -/
def Mirrors (t : GlTable) (entries : List GlEntry) : Prop :=
  ∀ id columns, (∃ row, t.get? id = some row ∧ row.isDeleted = false ∧ row.columns = columns) ↔
    ∃ e ∈ entries, e.entryId = id ∧ e.business.columns = columns

/-- What a full sync leaves under an id. -/
theorem get?_fullSync (hash : Business → String) (t : GlTable) {f : Fetch} (hfull : f.forceFull = true)
    (hne : f.lines ≠ []) :
    (∀ e ∈ f.entries, (syncedTable hash t f).get? e.entryId =
        if stores hash t e then some (storedRow hash t e) else t.get? e.entryId) ∧
      ∀ id, id ∉ f.entries.map GlEntry.entryId →
        (syncedTable hash t f).get? id = (t.get? id).map asDeleted := by
  have hactive : f.activeIds ≠ [] := by
    obtain ⟨l, hl⟩ := List.exists_mem_of_ne_nil _ hne
    have hmem := (f.mem_activeIds _).mpr (List.mem_map_of_mem (List.mem_map_of_mem hl))
    exact List.ne_nil_of_mem hmem
  simp only [syncedTable, hfull, if_true, get?_markDeleted _ hactive, mem_deletedIds, f.mem_activeIds]
  refine ⟨fun e he => ?_, fun id hid => ?_⟩
  · rw [if_neg fun h => h.2 (List.mem_map_of_mem he), get?_incrementalSync t f.entries_nodup he]
  · rw [get?_incrementalSync_other t hid]
    split
    · rfl
    · next hdead =>
      cases hrow : t.get? id with
      | none => rfl
      | some row =>
          -- the row was deleted before
          have hdel : row.isDeleted = true := by
            by_contra hlive
            exact hdead ⟨⟨row, hrow, by simpa using hlive⟩, hid⟩
          rw [Option.map_some, asDeleted, ← hdel]

/-- A line that is missing in one full sync and comes back as it was stays deleted, whatever the table was. -/
theorem get?_reappeared (hash : Business → String) (t : GlTable) {f₁ f₂ f₃ : Fetch} {e : GlEntry}
    (h₁ : f₁.forceFull = true) (h₂ : f₂.forceFull = true) (h₃ : f₃.forceFull = true) (hne : f₂.lines ≠ [])
    (he₁ : e ∈ f₁.entries) (he₂ : e.entryId ∉ f₂.entries.map GlEntry.entryId) (he₃ : e ∈ f₃.entries)
    (hnew : stores hash t e = true) :
    (syncedTable hash (syncedTable hash (syncedTable hash t f₁) f₂) f₃).get? e.entryId =
      some (asDeleted (storedRow hash t e)) := by
  have hlines : ∀ f : Fetch, e ∈ f.entries → f.lines ≠ [] := by
    intro f he hnil
    simp [Fetch.entries, hnil] at he
  have hstored : (syncedTable hash t f₁).get? e.entryId = some (storedRow hash t e) := by
    rw [(get?_fullSync hash t h₁ (hlines f₁ he₁)).1 e he₁, if_pos hnew]
  have hdeleted : (syncedTable hash (syncedTable hash t f₁) f₂).get? e.entryId =
      some (asDeleted (storedRow hash t e)) := by
    rw [(get?_fullSync hash _ h₂ hne).2 _ he₂, hstored, Option.map_some]
  have hkeeps : stores hash (syncedTable hash (syncedTable hash t f₁) f₂) e = false := by
    simp [stores, hdeleted, asDeleted, storedRow]
  rw [(get?_fullSync hash _ h₃ (hlines f₃ he₃)).1 e he₃, hkeeps, if_neg (by simp), hdeleted]

/-- **A full sync mirrors the ERP** exactly when no fetched entry has a deleted row with its hash, after any syncs before
it. -/
theorem full_sync_mirrors_iff (hash : Business → String) (hinj : Function.Injective hash) (runs : List Fetch)
    (f : Fetch) (hfull : f.forceFull = true) (hne : f.lines ≠ []) :
    Mirrors (run (sync hash) LedgerState.empty (runs ++ [f])).table f.entries ↔
      ∀ e ∈ f.entries, ∀ row, (run (sync hash) LedgerState.empty runs).table.get? e.entryId = some row →
        row.pinnokioHash = hash e.business → row.isDeleted = false := by
  have hhashed : Hashed hash _ := hashed_run runs
  rw [run_concat, sync_table, if_neg hne]
  generalize (run (sync hash) LedgerState.empty runs).table = t at hhashed ⊢
  obtain ⟨hfetched, hothers⟩ := get?_fullSync hash t hfull hne
  constructor
  · intro hmirror e he row hrow hhash
    obtain ⟨row', hrow', hlive, -⟩ := (hmirror e.entryId e.business.columns).mpr ⟨e, he, rfl, rfl⟩
    have hkeeps : stores hash t e = false := by simp [stores, hrow, hhash]
    rw [hfetched e he, hkeeps, if_neg (by simp), hrow] at hrow'
    cases hrow'
    exact hlive
  · intro hcond id columns
    constructor
    · intro h
      obtain ⟨row, hrow, hlive, rfl⟩ := h
      by_cases hid : id ∈ f.entries.map GlEntry.entryId
      · obtain ⟨e, he, rfl⟩ := List.mem_map.mp hid
        refine ⟨e, he, rfl, ?_⟩
        rw [hfetched e he] at hrow
        split at hrow
        · cases hrow
          rfl
        · next hkeeps =>
          have hhash : row.pinnokioHash = hash e.business := by simpa [stores, hrow] using hkeeps
          exact (hhashed.columns_eq hinj hrow hhash).symm
      · rw [hothers id hid] at hrow
        obtain ⟨old, -, rfl⟩ := Option.map_eq_some_iff.mp hrow
        cases hlive
    · intro h'
      obtain ⟨e, he, rfl, rfl⟩ := h'
      rw [hfetched e he]
      cases hs : stores hash t e with
      | true => exact ⟨storedRow hash t e, rfl, rfl, rfl⟩
      | false =>
          cases hget : t.get? e.entryId with
          | none => simp [stores, hget] at hs
          | some row =>
              have hhash : row.pinnokioHash = hash e.business := by simpa [stores, hget] using hs
              exact ⟨row, rfl, hcond e he row hget hhash, hhashed.columns_eq hinj hget hhash⟩

/-- The data of an entry as a tuple. -/
def Business.tuple (b : Business) :=
  ((b.entryId, b.entryDate.map fun d => (d.year, d.month, d.day), b.journalCode, b.documentRef),
    (b.accountNumber, b.accountName, b.description, b.partnerName),
    (b.debit, b.credit, b.reconciliationRef, b.entryState),
    b.currency, b.exchangeRate, b.amountCurrencyValue, b.currencyErpId)

theorem Business.tuple_injective : Function.Injective Business.tuple := by
  have hdate : Function.Injective fun d : Date => (d.year, d.month, d.day) := by
    intro h' hall h
    obtain ⟨y, m, d⟩ := h'
    obtain ⟨y', m', d'⟩ := hall
    simpa using h
  intro a b h
  simp only [Business.tuple, Prod.mk.injEq, (Option.map_injective hdate).eq_iff] at h
  obtain ⟨⟨h1, h2, h3, h4⟩, ⟨h5, h6, h7, h8⟩, ⟨h9, h10, h11, h12⟩, h13, h14, h15, h16⟩ := h
  cases a
  cases b
  simp only at *
  subst_vars
  rfl

/-- There are texts enough: an injective hash exists. -/
theorem exists_injective_hash : ∃ hash : Business → String, Function.Injective hash := by
  have hchar : Countable Char := Function.Injective.countable (f := Char.toNat) fun a b h => Char.toNat_inj.mp h
  have hstring : Countable String :=
    Function.Injective.countable (f := String.toList) fun a b h => String.toList_injective h
  have hbusiness : Countable Business := Business.tuple_injective.countable
  obtain ⟨code, hcode⟩ := exists_injective_nat Business
  refine ⟨fun b => toString (code b : ℤ), fun a b h => hcode ?_⟩
  exact Int.ofNat.inj (Numbers.toString_int_injective h)

/-- A line of one franc on the first of January. -/
def oneLine (id : ℤ) (year : ℕ) : OdooLine where
  id := id
  date := some ⟨year, 1, 1⟩
  writeDate := none
  journalId := some (1, "Bank")
  moveRef := none
  accountId := some (7, "1020 Bank")
  partnerId := none
  name := "Opening"
  debit := 1
  credit := 0
  fullReconcileId := none
  parentState := "posted"
  currencyId := none
  amountCurrency := 0
  currencyRate := 0

/-- A fetch of lines with these ids. -/
def fetchOf (forceFull : Bool) (year : ℕ) (ids : List ℤ) (h : ids.Nodup) : Fetch where
  forceFull := forceFull
  journalIdToCode := ∅
  lines := ids.map fun id => oneLine id year
  distinct := by
    rw [List.map_map]
    simpa [Function.comp_def, oneLine] using h

/-- The second of two lines disappears, and comes back in another year. -/
def comesBackChanged : Fetch where
  forceFull := true
  journalIdToCode := ∅
  lines := [oneLine 1 2024, oneLine 2 2023]
  distinct := by decide

/-- A full sync mirrors the ERP when the line that comes back is not as it was. -/
theorem full_sync_mirrors_changed : ∃ hash : Business → String, Function.Injective hash ∧
    Mirrors (run (sync hash) LedgerState.empty
      ([fetchOf true 2024 [1, 2] (by decide), fetchOf true 2024 [1] (by decide)] ++ [comesBackChanged])).table
      comesBackChanged.entries := by
  obtain ⟨hash, hinj⟩ := exists_injective_hash
  refine ⟨hash, hinj, (full_sync_mirrors_iff hash hinj _ comesBackChanged rfl (List.cons_ne_nil _ _)).mpr ?_⟩
  have hrun : (run (sync hash) LedgerState.empty
      [fetchOf true 2024 [1, 2] (by decide), fetchOf true 2024 [1] (by decide)]).table =
      syncedTable hash (syncedTable hash ∅ (fetchOf true 2024 [1, 2] (by decide)))
        (fetchOf true 2024 [1] (by decide)) := by
    simp only [run, List.foldl_cons, List.foldl_nil]
    rw [sync_table, if_neg (by simp [fetchOf]), sync_table, if_neg (by simp [fetchOf])]
    rfl
  obtain ⟨hstored, -⟩ := get?_fullSync hash ∅ (f := fetchOf true 2024 [1, 2] (by decide)) rfl (by simp [fetchOf])
  obtain ⟨hkept, hmissing⟩ := get?_fullSync hash (syncedTable hash ∅ (fetchOf true 2024 [1, 2] (by decide)))
    (f := fetchOf true 2024 [1] (by decide)) rfl (by simp [fetchOf])
  have hnew (e : GlEntry) : stores hash ∅ e = true := rfl
  rw [hrun]
  intro e he row hrow hhash
  have hcases : e = odooGlToNeonEntry ∅ (oneLine 1 2024) ∨ e = odooGlToNeonEntry ∅ (oneLine 2 2023) := by
    simpa [Fetch.entries, comesBackChanged] using he
  rcases hcases with rfl | rfl
  · have hfirst := hstored (odooGlToNeonEntry ∅ (oneLine 1 2024)) (by simp [Fetch.entries, fetchOf])
    rw [if_pos (hnew _)] at hfirst
    have hsecond := hkept (odooGlToNeonEntry ∅ (oneLine 1 2024)) (by simp [Fetch.entries, fetchOf])
    rw [if_neg (by simp [stores, hfirst, storedRow]), hfirst] at hsecond
    cases hrow.symm.trans hsecond
    rfl
  · have hfirst := hstored (odooGlToNeonEntry ∅ (oneLine 2 2024)) (by simp [Fetch.entries, fetchOf])
    rw [if_pos (hnew _)] at hfirst
    have hsecond := hmissing (odooGlToNeonEntry ∅ (oneLine 2 2024)).entryId (by decide)
    rw [hfirst] at hsecond
    cases hrow.symm.trans hsecond
    have hsame : (odooGlToNeonEntry ∅ (oneLine 2 2024)).business = (odooGlToNeonEntry ∅ (oneLine 2 2023)).business :=
      hinj hhash
    exact absurd (congrArg (fun b => b.entryDate.map Date.year) hsame) (by decide)

/-- A line that disappears and comes back as it was stays deleted. -/
theorem full_sync_misses :
    ¬∀ hash : Business → String, Function.Injective hash → ∀ (runs : List Fetch) (f : Fetch),
      f.forceFull = true → f.lines ≠ [] →
      Mirrors (run (sync hash) LedgerState.empty (runs ++ [f])).table f.entries := by
  intro h
  obtain ⟨hash, hinj⟩ := exists_injective_hash
  obtain ⟨row, hrow, hlive, -⟩ := (h hash hinj
    [fetchOf true 2024 [1] (by decide), fetchOf true 2024 [2] (by decide)] (fetchOf true 2024 [1, 2] (by decide)) rfl
    (by simp [fetchOf]) (odooGlToNeonEntry ∅ (oneLine 1 2024)).entryId
    (odooGlToNeonEntry ∅ (oneLine 1 2024)).business.columns).mpr
      ⟨_, by simp [Fetch.entries, fetchOf], rfl, rfl⟩
  simp only [run, List.cons_append, List.nil_append, List.foldl_cons, List.foldl_nil] at hrow
  rw [sync_table, if_neg (by simp [fetchOf]), sync_table, if_neg (by simp [fetchOf]), sync_table,
    if_neg (by simp [fetchOf]), get?_reappeared hash _ rfl rfl rfl (by simp [fetchOf])
      (by simp [Fetch.entries, fetchOf]) (by decide) (by simp [Fetch.entries, fetchOf]) rfl] at hrow
  cases hrow
  cases hlive

end Pinnokio.Ledger
