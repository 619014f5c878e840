import Mathlib.Algebra.Order.Field.Basic
import Mathlib.Algebra.Order.Field.Rat
import Pinnokio.Lib.Dict
import Pinnokio.Lib.Text

/-!
# The general-ledger table

A sync fetches the move lines of the ERP, brings them into the format of `accounting.gl_entries` and stores those
whose hash has changed.  A full sync then marks the rows that the ERP no longer has.  The table here is the part of
`accounting.gl_entries` of one company, by `entry_id`.

* `odooGlToNeonEntry` — from a line of the ERP to an entry;
* `incrementalSyncGlEntries`, `markDeletedEntries` — the two statements on the table;
* `get?_incrementalSync` — what the upsert leaves under each id;
* `Hashed` — the hash of a row is that of the data it shows.
-/

namespace Pinnokio.Ledger

open Pinnokio.Text

/-! ### Lines and entries -/

/-- A date of the calendar; its ISO text determines it. -/
structure Date where
  year : ℕ
  month : ℕ
  day : ℕ
  deriving DecidableEq

/-- A reference of the ERP, an id with a display name. -/
abbrev OdooRef := ℤ × String

/-- A line of `account.move.line`, as `fetch_financial_records` returns it.  `none` stands for `False` or a missing
value; a missing number reads as zero. -/
structure OdooLine where
  id : ℤ
  date : Option Date
  writeDate : Option String
  journalId : Option OdooRef
  moveRef : Option String
  accountId : Option OdooRef
  partnerId : Option OdooRef
  name : String
  debit : ℚ
  credit : ℚ
  fullReconcileId : Option OdooRef
  parentState : String
  currencyId : Option OdooRef
  amountCurrency : ℚ
  currencyRate : ℚ
  deriving DecidableEq

/-- An entry in the format of `incremental_sync_gl_entries`. -/
structure GlEntry where
  entryId : String
  entryDate : Option Date
  lastUpdateDate : Option String
  journalCode : String
  documentRef : Option String
  accountNumber : String
  accountName : String
  description : String
  partnerName : Option String
  debit : ℚ
  credit : ℚ
  reconciliationRef : Option String
  entryState : String
  currency : String
  currencyErpId : Option ℤ
  amountCurrencyValue : Option ℚ
  exchangeRate : ℚ
  deriving DecidableEq

/-- `s[:n]`. -/
def firstChars (n : ℕ) (s : String) : String := String.ofList (s.toList.take n)

/-- `_map_parent_state`. -/
def mapParentState (state : String) : String :=
  if state = "posted" ∨ state = "draft" ∨ state = "cancel" then state else "posted"

/-- The code of the journal, by the mapping, else the start of its display name. -/
def journalCodeOf (journalIdToCode : Dict ℤ String) : Option OdooRef → String
  | none => ""
  | some (jid, name) => orElse ((journalIdToCode.get? jid).getD "") (firstChars 10 name)

/-- `_odoo_gl_to_neon_entry`. -/
def odooGlToNeonEntry (journalIdToCode : Dict ℤ String) (record : OdooLine) : GlEntry where
  entryId := toString record.id
  entryDate := record.date
  lastUpdateDate := record.writeDate
  journalCode := journalCodeOf journalIdToCode record.journalId
  documentRef := record.moveRef
  accountNumber := match record.accountId with
    | none => ""
    | some (_, name) => (split name ' ').headD ""
  accountName := (record.accountId.map Prod.snd).getD ""
  description := record.name
  partnerName := record.partnerId.map Prod.snd
  debit := record.debit
  credit := record.credit
  reconciliationRef := match record.fullReconcileId with
    | none => none
    | some (_, name) => if name = "" then none else some (firstChars 20 name)
  entryState := mapParentState record.parentState
  currency := match record.currencyId with
    | none => "CHF"
    | some (_, name) => name
  currencyErpId := record.currencyId.map Prod.fst
  amountCurrencyValue := if record.amountCurrency ≠ 0 then some record.amountCurrency else none
  exchangeRate := if 0 < record.currencyRate then record.currencyRate else 1

/-! ### Rows -/

/-- `value or None`. -/
def orNone : Option String → Option String
  | some "" => none
  | v => v

/-- The data of an entry that `_compute_hash` is applied to. -/
structure Business where
  entryId : String
  entryDate : Option Date
  journalCode : String
  documentRef : Option String
  accountNumber : String
  accountName : Option String
  description : Option String
  partnerName : Option String
  debit : ℚ
  credit : ℚ
  reconciliationRef : Option String
  entryState : String
  currency : String
  exchangeRate : ℚ
  amountCurrencyValue : Option ℚ
  currencyErpId : Option ℤ
  deriving DecidableEq

/-- The dictionary that is hashed; an entry has none of the old French keys. -/
def GlEntry.business (e : GlEntry) : Business where
  entryId := e.entryId
  entryDate := e.entryDate
  journalCode := e.journalCode
  documentRef := orNone e.documentRef
  accountNumber := e.accountNumber
  accountName := orNone (some e.accountName)
  description := orNone (some e.description)
  partnerName := e.partnerName
  debit := e.debit
  credit := e.credit
  reconciliationRef := orNone e.reconciliationRef
  entryState := e.entryState
  currency := orElse e.currency "CHF"
  exchangeRate := if e.exchangeRate = 0 then 1 else e.exchangeRate
  amountCurrencyValue := e.amountCurrencyValue
  currencyErpId := e.currencyErpId

/-- A value of a column `NUMERIC(p, scale)`: rounded, ties away from zero. -/
def numeric (scale : ℕ) (x : ℚ) : ℚ :=
  let n := (|x| * 10 ^ scale + 1 / 2).floor
  (if x < 0 then -n else n) / 10 ^ scale

/-- The data columns of a row. -/
structure Columns where
  entryDate : Option Date
  journalCode : String
  documentRef : Option String
  accountNumber : String
  accountName : Option String
  description : Option String
  partnerName : Option String
  debit : ℚ
  credit : ℚ
  reconciliationRef : Option String
  entryState : String
  currency : String
  exchangeRate : ℚ
  amountCurrencyValue : Option ℚ
  currencyErpId : Option ℤ
  deriving DecidableEq

/-- The columns an entry is staged with. -/
def Business.columns (b : Business) : Columns where
  entryDate := b.entryDate
  journalCode := b.journalCode
  documentRef := b.documentRef
  accountNumber := b.accountNumber
  accountName := b.accountName
  description := b.description
  partnerName := b.partnerName
  debit := numeric 2 b.debit
  credit := numeric 2 b.credit
  reconciliationRef := b.reconciliationRef
  entryState := b.entryState
  currency := b.currency
  exchangeRate := numeric 6 b.exchangeRate
  amountCurrencyValue := b.amountCurrencyValue.map (numeric 2)
  currencyErpId := b.currencyErpId

/-- A row of `accounting.gl_entries`. -/
structure GlRow where
  columns : Columns
  lastUpdateDate : Option String
  pinnokioHash : String
  pinnokioVersion : ℕ
  isDeleted : Bool
  deriving DecidableEq

/-- The rows of a company, by `entry_id`. -/
abbrev GlTable := Dict String GlRow

/-! ### The statements -/

section Statements

/- SHA-256 of the JSON text of the hashed data. -/
variable (hash : Business → String)

/-- The upsert inserts the entry, or updates the row that has its id. -/
def stores (t : GlTable) (e : GlEntry) : Bool :=
  match t.get? e.entryId with
  | none => true
  | some row => row.pinnokioHash ≠ hash e.business

/-- The row an entry is stored as. -/
def storedRow (t : GlTable) (e : GlEntry) : GlRow where
  columns := e.business.columns
  lastUpdateDate := e.lastUpdateDate
  pinnokioHash := hash e.business
  pinnokioVersion := match t.get? e.entryId with
    | none => 0
    | some row => row.pinnokioVersion + 1
  isDeleted := false

/-- `INSERT … ON CONFLICT DO UPDATE … WHERE pinnokio_hash IS DISTINCT FROM`, for one staged entry. -/
def upsert (t : GlTable) (e : GlEntry) : GlTable :=
  if stores hash t e then t.set e.entryId (storedRow hash t e) else t

/-- The counters of a sync. -/
structure GlStats where
  added : ℕ
  modified : ℕ
  unchanged : ℕ
  deriving DecidableEq

/-- `incremental_sync_gl_entries`. -/
def incrementalSyncGlEntries (t : GlTable) (entries : List GlEntry) : GlTable × GlStats :=
  let added := (entries.filter fun e => decide (e.entryId ∉ t.keys)).length
  let modified := (entries.filter fun e => decide (e.entryId ∈ t.keys) && stores hash t e).length
  (entries.foldl (upsert hash) t, ⟨added, modified, entries.length - added - modified⟩)

/-- The rows that `mark_deleted_entries` marks. -/
def deletedIds (t : GlTable) (activeEntryIds : List String) : List String :=
  (t.entries.filter fun e => !e.2.isDeleted && decide (e.1 ∉ activeEntryIds)).map Prod.fst

/-- `is_deleted = TRUE`. -/
def asDeleted (row : GlRow) : GlRow := { row with isDeleted := true }

/-- `mark_deleted_entries`. -/
def markDeletedEntries (t : GlTable) (activeEntryIds : List String) : GlTable × ℕ :=
  if activeEntryIds = [] then (t, 0)
  else (t.modifyAll (deletedIds t activeEntryIds) asDeleted, (deletedIds t activeEntryIds).length)

end Statements

/-! ### What the statements leave in the table -/

section Reading

variable {hash : Business → String}

theorem get?_upsert (t : GlTable) (e : GlEntry) (id : String) :
    (upsert hash t e).get? id =
      if id = e.entryId ∧ stores hash t e = true then some (storedRow hash t e) else t.get? id := by
  unfold upsert
  by_cases hs : stores hash t e = true
  · rw [if_pos hs, Dict.get?_set]
    by_cases hid : id = e.entryId <;> simp [hid, hs]
  · simp [hs]

/-- An entry is stored the same way whatever happens to the other ids. -/
theorem stored_congr {t t' : GlTable} {e : GlEntry} (h : t'.get? e.entryId = t.get? e.entryId) :
    stores hash t' e = stores hash t e ∧ storedRow hash t' e = storedRow hash t e := by
  simp [stores, storedRow, h]

/-- An id that was not fetched. -/
theorem get?_incrementalSync_other (t : GlTable) {entries : List GlEntry} {id : String}
    (h : id ∉ entries.map GlEntry.entryId) : (incrementalSyncGlEntries hash t entries).1.get? id = t.get? id := by
  unfold incrementalSyncGlEntries
  dsimp only
  induction entries generalizing t with
  | nil => rfl
  | cons e entries ih =>
      rw [List.map_cons, List.mem_cons, not_or] at h
      rw [List.foldl_cons, ih _ h.2, get?_upsert, if_neg fun hc => h.1 hc.1]

/-- An id that was fetched: the entry is stored, or the row has its hash already. -/
theorem get?_incrementalSync (t : GlTable) {entries : List GlEntry} (hn : (entries.map GlEntry.entryId).Nodup)
    {e : GlEntry} (he : e ∈ entries) : (incrementalSyncGlEntries hash t entries).1.get? e.entryId =
      if stores hash t e then some (storedRow hash t e) else t.get? e.entryId := by
  unfold incrementalSyncGlEntries
  dsimp only
  induction entries generalizing t with
  | nil => cases he
  | cons x entries ih =>
      rw [List.map_cons, List.nodup_cons] at hn
      rw [List.foldl_cons]
      rcases List.mem_cons.mp he with rfl | he
      · have hrest : (incrementalSyncGlEntries hash (upsert hash t e) entries).1.get? e.entryId = _ :=
          get?_incrementalSync_other _ hn.1
        unfold incrementalSyncGlEntries at hrest
        rw [hrest, get?_upsert]
        simp
      · have hne : e.entryId ≠ x.entryId := fun h => hn.1 (h ▸ List.mem_map_of_mem he)
        have hget : (upsert hash t x).get? e.entryId = t.get? e.entryId := by
          rw [get?_upsert, if_neg fun h => hne h.1]
        rw [ih _ hn.2 he, (stored_congr hget).1, (stored_congr hget).2, hget]

theorem asDeleted_asDeleted (row : GlRow) : asDeleted (asDeleted row) = asDeleted row := rfl

theorem mem_deletedIds {t : GlTable} {ids : List String} {id : String} :
    id ∈ deletedIds t ids ↔ (∃ row, t.get? id = some row ∧ row.isDeleted = false) ∧ id ∉ ids := by
  unfold deletedIds
  simp only [List.mem_map, List.mem_filter, Bool.and_eq_true, Bool.not_eq_true', decide_eq_true_eq]
  constructor
  · intro h'
    obtain ⟨e, ⟨he, hlive, hid⟩, rfl⟩ := h'
    exact ⟨⟨e.2, Dict.mem_entries_iff.mp he, hlive⟩, hid⟩
  · intro h'
    obtain ⟨⟨row, hrow, hlive⟩, hid⟩ := h'
    exact ⟨(id, row), ⟨Dict.mem_entries_iff.mpr hrow, hlive, hid⟩, rfl⟩

/-- After a full sync the live rows are those of the active ids. -/
theorem get?_markDeleted (t : GlTable) {ids : List String} (hne : ids ≠ []) (id : String) :
    (markDeletedEntries t ids).1.get? id =
      if id ∈ deletedIds t ids then (t.get? id).map asDeleted else t.get? id := by
  rw [markDeletedEntries, if_neg hne]
  exact Dict.get?_modifyAll _ _ _ asDeleted_asDeleted _

/-- The hash of every row is that of the data it shows. -/
def Hashed (hash : Business → String) (t : GlTable) : Prop :=
  ∀ id row, t.get? id = some row → ∃ b, row.pinnokioHash = hash b ∧ row.columns = Business.columns b

theorem Hashed.empty : Hashed hash ∅ := by
  intro id row h
  cases h

theorem Hashed.upsert {t : GlTable} (h : Hashed hash t) (e : GlEntry) : Hashed hash (upsert hash t e) := by
  intro id row hrow
  rw [get?_upsert] at hrow
  split at hrow
  · cases hrow
    exact ⟨e.business, rfl, rfl⟩
  · exact h id row hrow

theorem Hashed.incrementalSync {t : GlTable} (h : Hashed hash t) (entries : List GlEntry) :
    Hashed hash (incrementalSyncGlEntries hash t entries).1 := by
  unfold incrementalSyncGlEntries
  dsimp only
  induction entries generalizing t with
  | nil => exact h
  | cons e entries ih => exact ih (h.upsert e)

theorem Hashed.markDeleted {t : GlTable} (h : Hashed hash t) (ids : List String) :
    Hashed hash (markDeletedEntries t ids).1 := by
  by_cases hne : ids = []
  · simpa [markDeletedEntries, hne] using h
  · intro id row hrow
    rw [get?_markDeleted t hne] at hrow
    split at hrow
    · obtain ⟨old, hold, rfl⟩ := Option.map_eq_some_iff.mp hrow
      exact h id old hold
    · exact h id row hrow

/-- A row with the hash of an entry shows the entry. -/
theorem Hashed.columns_eq (hinj : Function.Injective hash) {t : GlTable} (h : Hashed hash t) {id : String} {row : GlRow}
    (hrow : t.get? id = some row) {e : GlEntry} (hhash : row.pinnokioHash = hash e.business) :
    row.columns = e.business.columns := by
  obtain ⟨b, hb, hcols⟩ := h id row hrow
  have heq : b = e.business := hinj (hb.symm.trans hhash)
  rw [hcols, heq]

end Reading

end Pinnokio.Ledger
