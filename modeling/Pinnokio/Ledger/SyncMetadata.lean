import Mathlib.Logic.Function.Basic
import Pinnokio.Lib.Json
import Pinnokio.Lib.Runs
import Pinnokio.Lib.Tables

/-!
# The metadata of the synchronisations

`accounting.sync_metadata` has a row for each company and type of synchronisation.  `update_sync_metadata` inserts a row
with these two columns only, and sets the fields it is given if there is a row already: in a new row every other column
has its default.

* `getSyncMetadata_update` — what is read after an update that succeeds;
* `fields_recorded_iff` — **the fields are recorded** exactly when the row was there before, or they are the defaults;
* `recorded_after_first` — so every update but the first one of a row is recorded.
-/

namespace Pinnokio.Ledger.MetadataTable

open Pinnokio.Runs

/-! ### The table -/

/-- The columns of a row, besides its key. -/
abbrev Row (V : Type*) := String → V

/-- What the database knows of the table: its columns, the values that can be passed for a column, the rows that its
constraints allow, and the text of a value that is written as JSON. -/
structure Schema (V : Type*) where
  columns : List String
  encodes : String → V → Bool
  allows : Row V → Bool
  ofText : String → V

/-- The value of a field: a plain one, or a dict or list with the text that `json.dumps(value, default=str)` gives. -/
inductive FieldValue (V : Type*) where
  | plain (v : V)
  | json (text : String)

section Table

variable {C V : Type*} [DecidableEq C] (schema : Schema V)

/-- The rows, by company and type. -/
abbrev Table (C V : Type*) := Dict (C × String) (Row V)

/-- The value that is passed for a field. -/
def FieldValue.passed : FieldValue V → V
  | plain v => v
  | json text => schema.ofText text

/-- The assignments of the `SET` clause. -/
def setClause (fields : List (String × FieldValue V)) (now : V) : List (String × V) :=
  if fields = [] then [("updated_at", now)] else fields.map fun f => (f.1, f.2.passed schema)

/-- A row with assignments. -/
def assign (assignments : List (String × V)) (row : Row V) : Row V :=
  assignments.foldl (fun row a => Function.update row a.1 a.2) row

/-- `get_sync_metadata`. -/
def getSyncMetadata (table : Table C V) (companyId : C) (syncType : String) : Option (Row V) :=
  table.get? (companyId, syncType)

/-- `update_sync_metadata`, with the defaults of a new row; `none` is an error of the database, which leaves the table
as it is.  The new row is checked even if it is not inserted. -/
def updateSyncMetadata (table : Table C V) (companyId : C) (syncType : String) (fields : List (String × FieldValue V))
    (defaults : Row V) (now : V) : Option (Table C V) :=
  let assignments := setClause schema fields now
  if (assignments.all fun a => a.1 ∈ schema.columns && schema.encodes a.1 a.2) && schema.allows defaults then
    let row := table.upserted (companyId, syncType) defaults (assign assignments)
    if schema.allows row then some (table.upsert (companyId, syncType) defaults (assign assignments)) else none
  else none

end Table

/-! ### What is recorded -/

section Recorded

variable {C V : Type*} [DecidableEq C] {schema : Schema V} {table table' : Table C V} {companyId : C}
  {syncType : String} {fields : List (String × V)} {defaults : Row V} {now : V}

/-- Fields with plain values. -/
def plainFields (fields : List (String × V)) : List (String × FieldValue V) := fields.map fun f => (f.1, .plain f.2)

/-- **The fields are recorded**: the row that is read has them, and the other columns are unchanged, or their defaults
if the row is new. -/
def FieldsRecorded (table table' : Table C V) (companyId : C) (syncType : String) (fields : List (String × V))
    (defaults : Row V) : Prop :=
  ∃ row, getSyncMetadata table' companyId syncType = some row ∧ (∀ f ∈ fields, row f.1 = f.2) ∧
    ∀ column, column ∉ fields.map Prod.fst →
      row column = ((getSyncMetadata table companyId syncType).getD defaults) column

theorem assign_of_not_mem {assignments : List (String × V)} {row : Row V} {column : String}
    (h : column ∉ assignments.map Prod.fst) : assign assignments row column = row column := by
  induction assignments generalizing row with
  | nil => rfl
  | cons a assignments ih =>
      rw [List.map_cons, List.mem_cons, not_or] at h
      show assign assignments (Function.update row a.1 a.2) column = _
      rw [ih h.2, Function.update_of_ne h.1]

theorem assign_of_mem {assignments : List (String × V)} {row : Row V} (hn : (assignments.map Prod.fst).Nodup)
    {a : String × V} (h : a ∈ assignments) : assign assignments row a.1 = a.2 := by
  induction assignments generalizing row with
  | nil => cases h
  | cons b assignments ih =>
      rw [List.map_cons, List.nodup_cons] at hn
      show assign assignments (Function.update row b.1 b.2) a.1 = _
      rcases List.mem_cons.mp h with rfl | h
      · rw [assign_of_not_mem hn.1, Function.update_self]
      · exact ih hn.2 h

theorem setClause_plain (h : fields ≠ []) (now : V) : setClause schema (plainFields fields) now = fields := by
  have hplain : plainFields fields ≠ [] := fun hnil => h (List.map_eq_nil_iff.mp hnil)
  rw [setClause, if_neg hplain, plainFields, List.map_map]
  exact List.map_id fields

/-- An update that succeeds leaves the table of the upsert. -/
theorem updateSyncMetadata_eq_some {fields : List (String × FieldValue V)}
    (h : updateSyncMetadata schema table companyId syncType fields defaults now = some table') :
    table' = table.upsert (companyId, syncType) defaults (assign (setClause schema fields now)) := by
  unfold updateSyncMetadata at h
  dsimp only at h
  split_ifs at h
  exact (Option.some.inj h).symm

/-- **What is read after an update**: the fields over the row that was there, or the defaults. -/
theorem getSyncMetadata_update {fields : List (String × FieldValue V)}
    (h : updateSyncMetadata schema table companyId syncType fields defaults now = some table') :
    getSyncMetadata table' companyId syncType =
      some (match getSyncMetadata table companyId syncType with
        | none => defaults
        | some row => assign (setClause schema fields now) row) := by
  rw [updateSyncMetadata_eq_some h, getSyncMetadata, Dict.get?_upsert_self, Dict.upserted, getSyncMetadata]
  cases table.get? (companyId, syncType) <;> rfl

/-- In a row that was there before, they are. -/
theorem recorded_assign {row : Row V} (hrow : getSyncMetadata table companyId syncType = some row)
    (hread : getSyncMetadata table' companyId syncType = some (assign fields row))
    (hn : (fields.map Prod.fst).Nodup) : FieldsRecorded table table' companyId syncType fields defaults := by
  refine ⟨_, hread, fun f hf => assign_of_mem hn hf, fun column hcolumn => ?_⟩
  rw [hrow]
  exact assign_of_not_mem hcolumn

/-- **The fields are recorded** exactly when the row was there before, or they are the defaults of their columns. -/
theorem fields_recorded_iff (hfields : fields ≠ []) (hn : (fields.map Prod.fst).Nodup)
    (h : updateSyncMetadata schema table companyId syncType (plainFields fields) defaults now = some table') :
    FieldsRecorded table table' companyId syncType fields defaults ↔
      (getSyncMetadata table companyId syncType).isSome ∨ ∀ f ∈ fields, f.2 = defaults f.1 := by
  have hread := getSyncMetadata_update h
  rw [setClause_plain hfields] at hread
  cases hrow : getSyncMetadata table companyId syncType with
  | none =>
      rw [hrow] at hread
      rw [FieldsRecorded, hread, hrow]
      constructor
      · rintro ⟨row, hsome, hmem, -⟩
        cases hsome
        exact .inr fun f hf => (hmem f hf).symm
      · rintro (hsome | hdefaults)
        · cases hsome
        · exact ⟨defaults, rfl, fun f hf => (hdefaults f hf).symm, fun column _ => rfl⟩
  | some row =>
      rw [hrow] at hread
      exact iff_of_true (recorded_assign hrow hread hn) (.inl rfl)

/-! ### One update after another -/

/-- The arguments of an update, with the defaults of a new row and the time. -/
structure Update (C V : Type*) where
  companyId : C
  syncType : String
  fields : List (String × FieldValue V)
  defaults : Row V
  now : V

variable (schema) in
/-- One update; an error leaves the table as it is. -/
def step (table : Table C V) (u : Update C V) : Table C V :=
  (updateSyncMetadata schema table u.companyId u.syncType u.fields u.defaults u.now).getD table

/-- A row that is there stays. -/
theorem isSome_step (h : (getSyncMetadata table companyId syncType).isSome) (u : Update C V) :
    (getSyncMetadata (step schema table u) companyId syncType).isSome := by
  rw [step]
  cases hupdate : updateSyncMetadata schema table u.companyId u.syncType u.fields u.defaults u.now with
  | none => exact h
  | some table' =>
      rw [Option.getD_some, updateSyncMetadata_eq_some hupdate, getSyncMetadata, Dict.get?_upsert]
      split
      · rfl
      · exact h

theorem isSome_run (h : (getSyncMetadata table companyId syncType).isSome) (us : List (Update C V)) :
    (getSyncMetadata (run (step schema) table us) companyId syncType).isSome := by
  induction us generalizing table with
  | nil => exact h
  | cons u us ih => exact ih (isSome_step h u)

/-- **Every update but the first one of a row is recorded**, whatever was updated in between. -/
theorem recorded_after_first {first : List (String × FieldValue V)} {firstDefaults : Row V} {firstNow : V}
    {table₁ : Table C V} (hfirst : updateSyncMetadata schema table companyId syncType first firstDefaults firstNow =
      some table₁) (us : List (Update C V)) (hfields : fields ≠ []) (hn : (fields.map Prod.fst).Nodup)
    (h : updateSyncMetadata schema (run (step schema) table₁ us) companyId syncType (plainFields fields) defaults now =
      some table') :
    FieldsRecorded (run (step schema) table₁ us) table' companyId syncType fields defaults := by
  have hrow : (getSyncMetadata table₁ companyId syncType).isSome := by
    rw [getSyncMetadata_update hfirst]
    rfl
  have hread := getSyncMetadata_update h
  rw [setClause_plain hfields] at hread
  have hafter : (getSyncMetadata (run (step schema) table₁ us) companyId syncType).isSome := isSome_run hrow us
  obtain ⟨row, hrun⟩ := Option.isSome_iff_exists.mp hafter
  rw [hrun] at hread
  exact recorded_assign hrun hread hn

end Recorded

/-! ### The first synchronisation -/

/-- A table with a status and a time. -/
def statusSchema : Schema Scalar where
  columns := ["sync_status", "last_sync_time", "updated_at"]
  encodes _ _ := true
  allows _ := true
  ofText := .str

/-- A new row, with a status of its own. -/
def newRow : Row Scalar := fun column => if column = "sync_status" then .str "idle" else .none

/-- A row was there: the status is recorded. -/
theorem status_recorded :
    let table : Table ℕ Scalar := Dict.ofList [((1, "gl"), newRow)]
    ∃ table',
      updateSyncMetadata statusSchema table 1 "gl" (plainFields [("sync_status", .str "running")]) newRow .none =
        some table' ∧
      FieldsRecorded table table' 1 "gl" [("sync_status", .str "running")] newRow := by
  intro table
  obtain ⟨table', h⟩ : ∃ table', updateSyncMetadata statusSchema table 1 "gl"
      (plainFields [("sync_status", .str "running")]) newRow .none = some table' := ⟨_, rfl⟩
  exact ⟨table', h, (fields_recorded_iff (by decide) (by decide) h).mpr (.inl rfl)⟩

/-- **The first status is lost**: the new row has the default. -/
theorem first_status_lost :
    ∃ table' : Table ℕ Scalar,
      updateSyncMetadata statusSchema Dict.empty 1 "gl" (plainFields [("sync_status", .str "running")]) newRow .none =
        some table' ∧
      ¬FieldsRecorded Dict.empty table' 1 "gl" [("sync_status", .str "running")] newRow := by
  refine ⟨_, rfl, ?_⟩
  rintro ⟨row, hrow, hfields, -⟩
  cases hrow
  exact absurd (hfields _ List.mem_cons_self) (by decide)

end Pinnokio.Ledger.MetadataTable
