import Pinnokio.Lib.Json
import Pinnokio.Lib.Numbers
import Pinnokio.Lib.Runs

/-!
# The sync of journals

`sync_gl_from_erp_async_journals` reads all journals of the ERP, upserts those modified since the last sync into
`accounting.journals` and records the time of the sync.  The date a journal was modified on is not among the fields
it asks for.

* `sync_table_of_lastSync` — once a time is recorded, no run writes a journal;
* `showsRead_run` — the table shows the journals as the runs before that have read them, which `readJournals` keeps;
* `mirrored_iff_unchanged` — the table holds the journals of a run after it exactly when they have names and no time is
  recorded yet, or they have not changed since those runs;
* `all_mirrored_iff` — the same for every sequence of runs and of changes in the ERP between them.
-/

namespace Pinnokio.Ledger.Journals

open Pinnokio Pinnokio.Runs Pinnokio.Numbers

/-- A journal of the ERP. -/
structure OdooJournal where
  id : ℤ
  code : String
  name : String
  type : String
  writeDate : String
  deriving DecidableEq

/-- The value of a field; what nothing reads (`default_account_id`, `company_id`) is left out. -/
def OdooJournal.field (j : OdooJournal) (name : String) : Option Scalar :=
  if name = "id" then some (.int j.id)
  else if name = "code" then some (.str j.code)
  else if name = "name" then some (.str j.name)
  else if name = "type" then some (.str j.type)
  else if name = "write_date" then some (.str j.writeDate)
  else none

/-- `_JOURNAL_FIELDS`. -/
def journalFields : List String := ["id", "code", "name", "type", "default_account_id", "company_id"]

/-- `search_read`: the records have the fields asked for. -/
def searchRead (fields : List String) (journals : List OdooJournal) : List Fields :=
  journals.map fun j => Dict.tabulate fields j.field

/-- `_JOURNAL_TYPE_MAP`, with its default. -/
def journalType (type : Scalar) : String :=
  if type ∈ ["sale", "purchase", "bank", "cash", "general"].map Scalar.str then type.toStr else "general"

/-- A journal in the format of `upsert_journals`. -/
structure NeonJournal where
  journalCode : Scalar
  journalName : String
  journalType : String
  erpJournalId : String
  erpSource : String

/-- `_odoo_journal_to_neon`. -/
def odooJournalToNeon (record : Fields) : NeonJournal where
  journalCode := record.getD "code" (.str "")
  journalName := (record.getD "name" (.str "")).toStr
  journalType := journalType (record.getD "type" (.str ""))
  erpJournalId := (record.getD "id" (.str "")).toStr
  erpSource := "odoo"

/-- A row of `accounting.journals`. -/
structure JournalRow where
  journalName : String
  journalType : String
  erpJournalId : String
  erpSource : String
  isActive : Bool
  deriving DecidableEq

/-- The rows of a company, by code. -/
abbrev JournalTable := Dict String JournalRow

/-- The statement of `upsert_journals`, for one journal.  An empty name is replaced by the code. -/
def upsertJournal (t : JournalTable) (j : NeonJournal) : JournalTable :=
  let journalCode := if j.journalCode.truthy then j.journalCode.toStr else ""
  if journalCode = "" then t
  else t.set journalCode
    ⟨Text.orElse j.journalName journalCode, j.journalType, j.erpJournalId, j.erpSource, true⟩

/-- `upsert_journals`. -/
def upsertJournals (t : JournalTable) (journals : List NeonJournal) : JournalTable := journals.foldl upsertJournal t

/-- The tables of a company: its journals, and the row of `accounting.sync_metadata` for them, with its
`last_sync_time` in seconds. -/
structure JournalStore where
  table : JournalTable
  metadata : Option (Option ℤ)

/-- `update_sync_metadata(last_sync_time=now)`: the first call inserts the row without its fields. -/
def updateSyncMetadata (metadata : Option (Option ℤ)) (now : ℤ) : Option (Option ℤ) :=
  match metadata with
  | none => some none
  | some _ => some (some now)

/-- `safe_date`: the day before the last sync. -/
def safeDate (lastSync : ℤ) : String := isoDay ((lastSync - 86400) / 86400)

/-- `journals_to_upsert`. -/
def journalsToUpsert (metadata : Option (Option ℤ)) (records : List Fields) : List Fields :=
  match metadata.join with
  | none => records
  | some lastSync => records.filter fun record =>
      decide (safeDate lastSync ≤ (record.getD "write_date" (.str "")).toStr)

/-- `id_to_code`. -/
def idToCode (records : List Fields) : Dict ℤ String :=
  Dict.ofList (records.filterMap fun record =>
    match record.get "id" with
    | .int id => if id ≠ 0 ∧ (record.getD "code" (.str "")).truthy then some (id, (record.getD "code" (.str "")).toStr)
        else none
    | _ => none)

/-- What a run finds: the journals of the ERP, whose codes are distinct and not empty, and the time. -/
structure JournalRun where
  journals : List OdooJournal
  distinct : (journals.map OdooJournal.code).Nodup
  coded : ∀ j ∈ journals, j.code ≠ ""
  now : ℤ

/-- `sync_gl_from_erp_async_journals`, with the mapping it returns. -/
def syncJournals (s : JournalStore) (r : JournalRun) : JournalStore × Option (Dict ℤ String) :=
  let records := searchRead journalFields r.journals
  if records = [] then (s, none)
  else
    let journals := (journalsToUpsert s.metadata records).map odooJournalToNeon
    (⟨upsertJournals s.table journals, updateSyncMetadata s.metadata r.now⟩, some (idToCode records))

/-- The store after a run. -/
def step (s : JournalStore) (r : JournalRun) : JournalStore := (syncJournals s r).1

/-- Every journal has a row with its code, name, type and id. -/
def Mirrored (t : JournalTable) (journals : List OdooJournal) : Prop :=
  ∀ j ∈ journals, ∃ row, t.get? j.code = some row ∧ row.journalName = j.name ∧
    row.journalType = journalType (.str j.type) ∧ row.erpJournalId = toString j.id

/-! ### What has changed in the ERP -/

/-- The runs so far: what they have recorded, and the journals that those which upsert have read last, by code. -/
structure RunsSoFar where
  metadata : Option (Option ℤ)
  journals : Dict String OdooJournal

/-- No run yet. -/
def RunsSoFar.before (s : JournalStore) : RunsSoFar := ⟨s.metadata, ∅⟩

/-- A further run: it upserts as long as no time is recorded. -/
def readJournals (k : RunsSoFar) (r : JournalRun) : RunsSoFar :=
  if r.journals = [] then k
  else
    { metadata := updateSyncMetadata k.metadata r.now
      journals :=
        if k.metadata.join = none then k.journals.setAll (r.journals.map fun j => (j.code, j)) else k.journals }

/-- A journal has the name, the type and the id that it had before; an empty name has become the code. -/
def SameJournal (old j : OdooJournal) : Prop :=
  Text.orElse old.name old.code = j.name ∧ journalType (.str old.type) = journalType (.str j.type) ∧ old.id = j.id

/-- A journal is as the last run that has upserted its code has found it; if none has, as in the table before all
runs. -/
def UnchangedSince (start : JournalTable) (k : RunsSoFar) (j : OdooJournal) : Prop :=
  (k.journals.get? j.code).elim (Mirrored start [j]) fun old => SameJournal old j

/-- As long as no time is recorded, the journals of a run have names; then none is new or has changed. -/
def Unchanged (start : JournalTable) (k : RunsSoFar) (r : JournalRun) : Prop :=
  ∀ j ∈ r.journals, (k.metadata.join = none → j.name ≠ "") ∧ (k.metadata.join ≠ none → UnchangedSince start k j)

/-! ### The runs -/

/-- The record of a journal. -/
def record (j : OdooJournal) : Fields := Dict.tabulate journalFields j.field

theorem odooJournalToNeon_record (j : OdooJournal) :
    odooJournalToNeon (record j) = ⟨.str j.code, j.name, journalType (.str j.type), toString j.id, "odoo"⟩ := rfl

/-- The day a journal was modified on is not asked for. -/
theorem journalsToUpsert_of_lastSync (journals : List OdooJournal) {metadata : Option (Option ℤ)} {lastSync : ℤ}
    (h : metadata.join = some lastSync) : journalsToUpsert metadata (searchRead journalFields journals) = [] := by
  rw [journalsToUpsert, h, List.filter_eq_nil_iff]
  intro rec hrec hlate
  obtain ⟨j, -, rfl⟩ := List.mem_map.mp hrec
  have hle : safeDate lastSync ≤ "" := of_decide_eq_true hlate
  exact isoDay_ne_empty _ (Text.eq_empty_of_le hle)

/-- **Once a time is recorded, no run writes a journal.** -/
theorem sync_table_of_lastSync (s : JournalStore) (r : JournalRun) {lastSync : ℤ}
    (h : s.metadata.join = some lastSync) : (step s r).table = s.table := by
  unfold step syncJournals
  dsimp only
  split
  · rfl
  · show upsertJournals s.table ((journalsToUpsert s.metadata _).map odooJournalToNeon) = s.table
    rw [journalsToUpsert_of_lastSync r.journals h]
    rfl

/-- The row of a journal. -/
def rowOf (j : OdooJournal) : JournalRow :=
  ⟨Text.orElse j.name j.code, journalType (.str j.type), toString j.id, "odoo", true⟩

theorem upsertJournal_record (t : JournalTable) {j : OdooJournal} (hcode : j.code ≠ "") :
    upsertJournal t (odooJournalToNeon (record j)) = t.set j.code (rowOf j) := by
  have hkey : (if (Scalar.str j.code).truthy then (Scalar.str j.code).toStr else "") = j.code :=
    if_pos (decide_eq_true hcode)
  rw [odooJournalToNeon_record]
  unfold upsertJournal
  dsimp only
  rw [hkey, if_neg hcode]
  rfl

/-- The upsert of journals writes their rows. -/
theorem upsertJournals_eq (t : JournalTable) {journals : List OdooJournal} (hcoded : ∀ j ∈ journals, j.code ≠ "") :
    upsertJournals t (journals.map fun j => odooJournalToNeon (record j)) =
      t.setAll (journals.map fun j => (j.code, rowOf j)) := by
  induction journals generalizing t with
  | nil => rfl
  | cons x journals ih =>
      have hx := upsertJournal_record t (hcoded x List.mem_cons_self)
      show upsertJournals (upsertJournal t (odooJournalToNeon (record x))) _ = _
      rw [hx, ih _ fun j hj => hcoded j (List.mem_cons_of_mem _ hj)]
      rfl

/-- As long as no time is recorded, a run upserts every journal. -/
theorem sync_table_of_no_lastSync (s : JournalStore) (r : JournalRun) (h : s.metadata.join = none) :
    (step s r).table = s.table.setAll (r.journals.map fun j => (j.code, rowOf j)) := by
  have hall : journalsToUpsert s.metadata (searchRead journalFields r.journals) = r.journals.map record := by
    rw [journalsToUpsert, h]
    rfl
  unfold step syncJournals
  dsimp only
  split
  · next hnone =>
    have hempty : r.journals = [] := List.map_eq_nil_iff.mp hnone
    rw [hempty]
    rfl
  · rw [hall, List.map_map]
    exact upsertJournals_eq s.table r.coded

/-- A run without journals records nothing. -/
theorem sync_metadata (s : JournalStore) (r : JournalRun) :
    (step s r).metadata = if r.journals = [] then s.metadata else updateSyncMetadata s.metadata r.now := by
  unfold step syncJournals
  dsimp only
  by_cases hempty : r.journals = []
  · have hnone : searchRead journalFields r.journals = [] := List.map_eq_nil_iff.mpr hempty
    rw [if_pos hempty, if_pos hnone]
  · have hsome : searchRead journalFields r.journals ≠ [] := fun hnone => hempty (List.map_eq_nil_iff.mp hnone)
    rw [if_neg hempty, if_neg hsome]

/-- The table shows the journals that have been read, and otherwise what it was at the start. -/
structure ShowsRead (start : JournalTable) (k : RunsSoFar) (s : JournalStore) : Prop where
  metadata : s.metadata = k.metadata
  rows : ∀ code, s.table.get? code = ((k.journals.get? code).map rowOf).or (start.get? code)
  codes : ∀ code, ∀ j ∈ k.journals.get? code, j.code = code ∧ code ≠ ""

theorem showsRead_before (s : JournalStore) : ShowsRead s.table (RunsSoFar.before s) s :=
  ⟨rfl, fun _ => rfl, fun _ _ h => nomatch h⟩

section Runs

variable {start : JournalTable} {k : RunsSoFar} {s : JournalStore}

theorem showsRead_step (h : ShowsRead start k s) (r : JournalRun) : ShowsRead start (readJournals k r) (step s r) := by
  have hmetadata := sync_metadata s r
  rw [h.metadata] at hmetadata
  rw [readJournals]
  by_cases hempty : r.journals = []
  · rw [if_pos hempty] at hmetadata ⊢
    have htable : (step s r).table = s.table := by
      unfold step syncJournals
      rw [hempty]
      rfl
    exact ⟨hmetadata, htable ▸ h.rows, h.codes⟩
  · rw [if_neg hempty] at hmetadata ⊢
    cases hjoin : k.metadata.join with
    | some lastSync =>
        have hkeep := sync_table_of_lastSync s r (h.metadata ▸ hjoin)
        rw [if_neg (Option.some_ne_none lastSync)]
        exact ⟨hmetadata, hkeep ▸ h.rows, h.codes⟩
    | none =>
        rw [if_pos rfl]
        have hkeys {A : Type} (f : OdooJournal → A) :
            ((r.journals.map fun j => (j.code, f j)).map Prod.fst).Nodup := by
          rw [List.map_map]
          exact r.distinct
        have hget (code : String) : (k.journals.setAll (r.journals.map fun j => (j.code, j))).get? code =
            (Dict.getList code (r.journals.map fun j => (j.code, j))).or (k.journals.get? code) :=
          Dict.get?_setAll _ (hkeys id) code
        refine ⟨hmetadata, fun code => ?_, fun code j hj => ?_⟩
        · have hrows : r.journals.map (fun j => (j.code, rowOf j)) =
              (r.journals.map fun j => (j.code, j)).map fun e => (e.1, rowOf e.2) := by
            rw [List.map_map]
            rfl
          rw [sync_table_of_no_lastSync s r (h.metadata ▸ hjoin), Dict.get?_setAll _ (hkeys rowOf), hrows,
            Dict.getList_map_values, h.rows, hget]
          cases Dict.getList code (r.journals.map fun j => (j.code, j)) <;> rfl
        · rw [hget] at hj
          cases hread : Dict.getList code (r.journals.map fun j => (j.code, j)) with
          | none =>
              rw [hread] at hj
              exact h.codes code j hj
          | some j' =>
              rw [hread] at hj
              cases hj
              obtain ⟨x, hx, heq⟩ := List.mem_map.mp (Dict.mem_of_getList hread)
              cases heq
              exact ⟨rfl, r.coded _ hx⟩

/-- **After any runs the table shows the journals as they were read.** -/
theorem showsRead_run (s : JournalStore) (runs : List JournalRun) :
    ShowsRead s.table (run readJournals (RunsSoFar.before s) runs) (run step s runs) := by
  induction runs using List.reverseRecOn with
  | nil => exact showsRead_before s
  | append_singleton runs r ih =>
      rw [run_concat, run_concat]
      exact showsRead_step ih r

/-- **When a run leaves the journals it has read in the table.** -/
theorem mirrored_iff_unchanged (h : ShowsRead start k s) (r : JournalRun) :
    Mirrored (step s r).table r.journals ↔ Unchanged start k r := by
  refine forall₂_congr fun j hj => ?_
  cases hjoin : k.metadata.join with
  | none =>
      have hget : (step s r).table.get? j.code = some (rowOf j) := by
        have hnodup : ((r.journals.map fun j => (j.code, rowOf j)).map Prod.fst).Nodup := by
          rw [List.map_map]
          exact r.distinct
        rw [sync_table_of_no_lastSync s r (h.metadata ▸ hjoin), Dict.get?_setAll _ hnodup,
          (Dict.getList_eq_some_iff hnodup).mpr (List.mem_map_of_mem (f := fun j => (j.code, rowOf j)) hj)]
        rfl
      rw [hget]
      constructor
      · intro hshown
        obtain ⟨row, hrow, hname, -⟩ := hshown
        cases hrow
        refine ⟨fun _ hempty => ?_, fun hne => absurd rfl hne⟩
        -- an empty name has become the code
        rw [rowOf, Text.orElse, if_pos hempty, hempty] at hname
        exact r.coded j hj hname
      · intro hnamed
        exact ⟨rowOf j, rfl, if_neg (hnamed.1 rfl), rfl, rfl⟩
  | some lastSync =>
      have hshown : (∃ row, s.table.get? j.code = some row ∧ row.journalName = j.name ∧
          row.journalType = journalType (.str j.type) ∧ row.erpJournalId = toString j.id) ↔
          UnchangedSince start k j := by
        rw [h.rows, UnchangedSince]
        cases k.journals.get? j.code with
        | none =>
            show _ ↔ Mirrored start [j]
            rw [Mirrored, List.forall_mem_singleton]
            rfl
        | some old =>
            have hid : toString old.id = toString j.id ↔ old.id = j.id :=
              ⟨fun hsame => toString_int_injective hsame, fun hsame => hsame ▸ rfl⟩
            show (∃ row, some (rowOf old) = some row ∧ _) ↔ SameJournal old j
            rw [SameJournal, ← hid]
            constructor
            · intro hrow
              obtain ⟨row, hrow, hsame⟩ := hrow
              cases hrow
              exact hsame
            · exact fun hsame => ⟨rowOf old, rfl, hsame⟩
      rw [sync_table_of_lastSync s r (h.metadata ▸ hjoin), hshown]
      exact ⟨fun hsince => ⟨fun hnone => absurd hnone (Option.some_ne_none _), fun _ => hsince⟩,
        fun hboth => hboth.2 (Option.some_ne_none _)⟩

end Runs

/-- **The journals mirror the ERP after every run iff every run finds them as the runs before that have upserted them**,
whatever happens to the journals of the ERP between the runs. -/
theorem all_mirrored_iff (s : JournalStore) (runs : List JournalRun) :
    (∀ pre r, pre ++ [r] <+: runs → Mirrored (run step s (pre ++ [r])).table r.journals) ↔
      Guarded readJournals (Unchanged s.table) (RunsSoFar.before s) runs := by
  rw [guarded_iff_at_prefixes]
  refine forall₂_congr fun pre r => imp_congr_right fun _ => ?_
  rw [run_concat]
  exact mirrored_iff_unchanged (showsRead_run s pre) r

/-- A bank journal. -/
def bankJournal (name writeDate : String) : OdooJournal := ⟨7, "BNK1", name, "bank", writeDate⟩

/-- A run that finds the bank journal. -/
def bankRun (name writeDate : String) (now : ℤ) : JournalRun where
  journals := [bankJournal name writeDate]
  distinct := List.nodup_singleton _
  coded := by
    intro j hj
    rw [List.mem_singleton.mp hj]
    exact (by decide : "BNK1" ≠ "")
  now := now

/-- A journal renamed after the second run keeps its old name. -/
theorem rename_missed : ¬∀ (s : JournalStore) (runs pre : List JournalRun) (r : JournalRun), pre ++ [r] <+: runs →
    Mirrored (run step s (pre ++ [r])).table r.journals := by
  intro h
  have hlast := h ⟨∅, none⟩ _
    [bankRun "Bank" "2026-01-01 08:00:00" 1767258000, bankRun "Bank" "2026-01-01 08:00:00" 1767344400]
    (bankRun "Main bank" "2026-01-02 10:00:00" 1767430800) (List.prefix_refl _)
  obtain ⟨row, hrow, hname, -⟩ := hlast _ (List.mem_singleton_self _)
  have hkept : (run step ⟨∅, none⟩ ([bankRun "Bank" "2026-01-01 08:00:00" 1767258000,
      bankRun "Bank" "2026-01-01 08:00:00" 1767344400] ++ [bankRun "Main bank" "2026-01-02 10:00:00" 1767430800])).table.get?
        "BNK1" = some ⟨"Bank", "bank", "7", "odoo", true⟩ := by decide +kernel
  rw [show (bankJournal "Main bank" "2026-01-02 10:00:00").code = "BNK1" from rfl, hkept] at hrow
  cases hrow
  exact absurd hname (by decide)

end Pinnokio.Ledger.Journals
