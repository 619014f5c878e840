import Pinnokio.Ledger.GlSync

/-!
# Period balances and the ledger

The balances of a year are an aggregate of its rows, refreshed by a sync for the years of the lines it has fetched, and
only if it has stored one of them.  `Books` follows the syncs with a record of the years whose rows have changed since
their last refresh.

* `ChangesYear`, `refreshedYears` — the years whose rows a sync changes, and those it refreshes, by what it fetches,
  what it finds and where it fails;
* `upToDate_account` — the balances of the years outside the record are the aggregates, after any sync;
* `balances_match_after_success` — so all balances are, after every successful sync, as long as a successful sync
  refreshes the years in the record and those it changes.
-/

namespace Pinnokio.Ledger

open Pinnokio.Runs

/-! ### What a sync changes and what it refreshes -/

section Years

variable (hash : Business → String)

/-- The lines of the fetch are stored. -/
def SyncRun.storesLines (r : SyncRun) : Bool :=
  match r.fault with
  | some .store => false
  | _ => r.fetch.lines ≠ []

/-- The missing rows are marked. -/
def SyncRun.marksMissing (r : SyncRun) : Bool :=
  match r.fault with
  | some .markDeleted => false
  | _ => r.storesLines && r.fetch.forceFull

/-- A line that counts in the year is stored, or one that replaces such a row. -/
def StoresInYear (t : GlTable) (f : Fetch) (year : ℕ) : Prop :=
  ∃ e ∈ f.entries, stores hash t e = true ∧
    ((storedRow hash t e).countsIn year = true ∨ ∃ row, t.get? e.entryId = some row ∧ row.countsIn year = true)

/-- A row of the year is missing in the fetch. -/
def MissesInYear (t : GlTable) (f : Fetch) (year : ℕ) : Prop :=
  ∃ id row, t.get? id = some row ∧ row.countsIn year = true ∧ id ∉ f.entries.map GlEntry.entryId

/-- The sync changes rows of the year. -/
def ChangesYear (t : GlTable) (r : SyncRun) (year : ℕ) : Prop :=
  (r.storesLines = true ∧ StoresInYear hash t r.fetch year) ∨
    (r.marksMissing = true ∧ MissesInYear t r.fetch year)

/-- The table a sync leaves. -/
def tableAfter (t : GlTable) (r : SyncRun) : GlTable :=
  if r.storesLines then
    match r.fault with
    | some .markDeleted =>
        if r.fetch.forceFull then (incrementalSyncGlEntries hash t r.fetch.entries).1 else syncedTable hash t r.fetch
    | _ => syncedTable hash t r.fetch
  else t

/-- The years a sync refreshes: none if every fetched line is stored already. -/
def refreshedYears (t : GlTable) (r : SyncRun) : List ℕ :=
  if r.storesLines && r.fetch.entries.any (stores hash t) then
    match r.fault with
    | some .markDeleted => if r.fetch.forceFull then [] else r.fetch.impactedYears
    | some (.refresh done) => done.filter fun y => y ∈ r.fetch.impactedYears
    | _ => r.fetch.impactedYears
  else []

/-- The sync does not come to the statement that fails. -/
def completes (t : GlTable) (r : SyncRun) : Bool :=
  match r.fault with
  | none => true
  | some .store | some .finish => false
  | some .markDeleted => !(r.storesLines && r.fetch.forceFull)
  | some (.refresh _) => !(r.storesLines && r.fetch.entries.any (stores hash t) && r.fetch.impactedYears ≠ [])

/-- The counters say whether a line is stored. -/
theorem storesSome_eq (t : GlTable) (f : Fetch) : storesSome hash t f = f.entries.any (stores hash t) := by
  rw [Bool.eq_iff_iff]
  simp only [storesSome, incrementalSyncGlEntries, Bool.or_eq_true, decide_eq_true_eq, gt_iff_lt,
    List.length_pos_iff_exists_mem, List.mem_filter, Bool.and_eq_true, List.any_eq_true]
  constructor
  · intro h
    rcases h with ⟨e, he, hnew⟩ | ⟨e, he, -, hs⟩
    · have hget : t.get? e.entryId = none := Dict.get?_eq_none_iff.mpr hnew
      exact ⟨e, he, by simp [stores, hget]⟩
    · exact ⟨e, he, hs⟩
  · intro h
    obtain ⟨e, he, hs⟩ := h
    by_cases hid : e.entryId ∈ t.keys
    · exact Or.inr ⟨e, he, hid, hs⟩
    · exact Or.inl ⟨e, he, hid⟩

/-- **A sync**, wherever it fails: some rows, then some balances, and whether it succeeds. -/
theorem syncGlFromErp_eq (s : LedgerState) (r : SyncRun) : syncGlFromErp hash s r =
    ((refreshedYears hash s.table r).foldl refreshPeriodBalances { s with table := tableAfter hash s.table r },
      completes hash s.table r) := by
  obtain ⟨f, fault⟩ := r
  unfold syncGlFromErp doGlSync refreshedYears tableAfter completes SyncRun.storesLines
  dsimp only
  rw [storesSome_eq]
  -- what each place of the failure skips
  by_cases hl : f.lines = []
  · cases fault with
    | none => simp [hl]
    | some x => cases x <;> simp [hl]
  · cases hs : f.entries.any (stores hash s.table) <;> cases fault with
    | none => simp [hl]
    | some x =>
        cases x with
        | store => simp
        | finish => simp [hl]
        | markDeleted => cases hf : f.forceFull <;> simp [hl]
        | refresh done => by_cases hy : f.impactedYears = [] <;> simp [hl, hy]

end Years

/-! ### The rows of a year -/

section Rows

variable {hash : Business → String}

theorem yearRows_upsert {t : GlTable} {e : GlEntry} {year : ℕ}
    (h : stores hash t e = true → (storedRow hash t e).countsIn year = false ∧
      ∀ row, t.get? e.entryId = some row → row.countsIn year = false) :
    yearRows (upsert hash t e) year = yearRows t year := by
  unfold upsert
  split
  · next hs =>
    obtain ⟨hnew, hold⟩ := h hs
    exact Dict.filter_values_set hnew hold
  · rfl

/-- The store of the lines leaves the rows of a year in which it stores none. -/
theorem yearRows_incrementalSync {t : GlTable} {entries : List GlEntry} {year : ℕ}
    (hn : (entries.map GlEntry.entryId).Nodup)
    (h : ∀ e ∈ entries, stores hash t e = true → (storedRow hash t e).countsIn year = false ∧
      ∀ row, t.get? e.entryId = some row → row.countsIn year = false) :
    yearRows (incrementalSyncGlEntries hash t entries).1 year = yearRows t year := by
  unfold incrementalSyncGlEntries
  dsimp only
  induction entries generalizing t with
  | nil => rfl
  | cons e entries ih =>
      rw [List.map_cons, List.nodup_cons] at hn
      rw [List.foldl_cons, ih hn.2, yearRows_upsert (h e (List.mem_cons_self ..))]
      intro x hx
      -- the other ids are untouched
      have hget : (upsert hash t e).get? x.entryId = t.get? x.entryId := by
        rw [get?_upsert, if_neg]
        intro h'
        obtain ⟨hid, -⟩ := h'
        exact hn.1 (hid ▸ List.mem_map_of_mem hx)
      rw [(stored_congr hget).1, (stored_congr hget).2, hget]
      exact h x (List.mem_cons_of_mem _ hx)

theorem countsIn_asDeleted (row : GlRow) (year : ℕ) : (asDeleted row).countsIn year = false := by
  simp [GlRow.countsIn, asDeleted]

/-- The marking leaves the rows of a year in which it marks none. -/
theorem yearRows_markDeleted {t : GlTable} {ids : List String} {year : ℕ}
    (h : ∀ id ∈ deletedIds t ids, ∀ row, t.get? id = some row → row.countsIn year = false) :
    yearRows (markDeletedEntries t ids).1 year = yearRows t year := by
  unfold markDeletedEntries
  split
  · rfl
  · dsimp only
    unfold yearRows
    rw [Dict.entries_modifyAll _ _ _ asDeleted_asDeleted, List.map_map]
    generalize hes : t.entries = es
    have hcount : ∀ e ∈ es, e.1 ∈ deletedIds t ids → e.2.countsIn year = false := by
      intro e he hid
      exact h e.1 hid e.2 (Dict.mem_entries_iff.mp (hes ▸ he))
    clear hes
    induction es with
    | nil => rfl
    | cons e es ih =>
        have htail := ih fun x hx => hcount x (List.mem_cons_of_mem _ hx)
        simp only [List.map_cons, List.filter_cons, htail, Function.comp_apply]
        by_cases hid : e.1 ∈ deletedIds t ids
        · simp [hid, countsIn_asDeleted, hcount e (List.mem_cons_self ..) hid]
        · simp [hid]

/-- **The rows of a year that a sync does not change.** -/
theorem yearRows_tableAfter {t : GlTable} {r : SyncRun} {year : ℕ} (h : ¬ChangesYear hash t r year) :
    yearRows (tableAfter hash t r) year = yearRows t year := by
  unfold tableAfter
  split
  · next hstores =>
    have hstored : yearRows (incrementalSyncGlEntries hash t r.fetch.entries).1 year = yearRows t year := by
      refine yearRows_incrementalSync r.fetch.entries_nodup fun e he hs => ?_
      have hno := fun hc => h (Or.inl ⟨hstores, e, he, hs, hc⟩)
      simp only [← Bool.not_eq_true]
      exact ⟨fun hcount => hno (Or.inl hcount), fun row hrow hcount => hno (Or.inr ⟨row, hrow, hcount⟩)⟩
    have hsynced : r.fault ≠ some .markDeleted ∨ r.fetch.forceFull = false →
        yearRows (syncedTable hash t r.fetch) year = yearRows t year := by
      intro hfault
      unfold syncedTable
      dsimp only
      split
      · next hfull =>
        rw [yearRows_markDeleted, hstored]
        intro id hid row hrow
        rw [mem_deletedIds, r.fetch.mem_activeIds] at hid
        rw [get?_incrementalSync_other t hid.2] at hrow
        by_contra hcount
        have hmarks : r.marksMissing = true := by
          unfold SyncRun.marksMissing
          split
          · next hf => simp [hf, hfull] at hfault
          · simp [hstores, hfull]
        exact h (Or.inr ⟨hmarks, id, row, hrow, by simpa using hcount, hid.2⟩)
      · exact hstored
    split
    · next hf =>
      split
      · exact hstored
      · next hfull => exact hsynced (Or.inr (by simpa using hfull))
    · next hf => exact hsynced (Or.inl hf)
  · rfl

theorem refresh_balances (years : List ℕ) (s : LedgerState) (year month : ℕ) (account : String) :
    (years.foldl refreshPeriodBalances s).balances year month account =
      if year ∈ years then aggregate (periodRows s.table year month account)
      else s.balances year month account := by
  induction years generalizing s with
  | nil => rfl
  | cons y years ih =>
      rw [List.foldl_cons, ih]
      by_cases hy : year ∈ years
      · simp [hy, refreshPeriodBalances]
      · by_cases heq : year = y <;> simp [hy, heq, refreshPeriodBalances]

end Rows

/-! ### The books -/

/-- The tables, and the years with a change since their last refresh. -/
structure Books where
  state : LedgerState
  dirty : Set ℕ

/-- Before the first sync. -/
def Books.empty : Books := ⟨LedgerState.empty, ∅⟩

section Runs

variable (hash : Business → String)

/-- One sync. -/
def account (b : Books) (r : SyncRun) : Books where
  state := (syncGlFromErp hash b.state r).1
  dirty := {year | (year ∈ b.dirty ∨ ChangesYear hash b.state.table r year) ∧
    year ∉ refreshedYears hash b.state.table r}

/-- A successful sync refreshes the years with a change, its own and those that earlier syncs have left. -/
def Settles (b : Books) (r : SyncRun) : Prop :=
  completes hash b.state.table r = true →
    ∀ year, year ∈ b.dirty ∨ ChangesYear hash b.state.table r year →
      year ∈ refreshedYears hash b.state.table r

/-- The balances of the year are those of its rows. -/
def LedgerState.Agrees (s : LedgerState) (year : ℕ) : Prop :=
  ∀ month account, s.balances year month account = aggregate (periodRows s.table year month account)

/-- The years outside the record are up to date. -/
def Books.UpToDate (b : Books) : Prop := ∀ year, year ∉ b.dirty → b.state.Agrees year

variable {hash}

/-- **One sync** keeps the years outside the record up to date. -/
theorem upToDate_account {b : Books} (h : b.UpToDate) (r : SyncRun) : (account hash b r).UpToDate := by
  intro year hclean month acct
  have htable : (syncGlFromErp hash b.state r).1.table = tableAfter hash b.state.table r := by
    rw [syncGlFromErp_eq, refresh_table]
  show (syncGlFromErp hash b.state r).1.balances year month acct =
    aggregate (periodRows (syncGlFromErp hash b.state r).1.table year month acct)
  rw [htable, syncGlFromErp_eq, refresh_balances]
  split
  · rfl
  · next hrefresh =>
    have hkept : ¬(year ∈ b.dirty ∨ ChangesYear hash b.state.table r year) := fun hc => hclean ⟨hc, hrefresh⟩
    rw [not_or] at hkept
    rw [periodRows, yearRows_tableAfter hkept.2]
    exact h year hkept.1 month acct

theorem upToDate_run (runs : List SyncRun) : (run (account hash) Books.empty runs).UpToDate := by
  induction runs using List.reverseRecOn with
  | nil =>
      intro year _ month acct
      rfl
  | append_singleton runs r ih =>
      rw [run_concat]
      exact upToDate_account ih r

theorem state_run (runs : List SyncRun) : (run (account hash) Books.empty runs).state =
    run (fun s r => (syncGlFromErp hash s r).1) LedgerState.empty runs := by
  induction runs using List.reverseRecOn with
  | nil => rfl
  | append_singleton runs r ih =>
      rw [run_concat, run_concat, ← ih]
      rfl

/-- **The balances match the ledger after every successful sync**, in every sequence of syncs in which the successful
ones refresh the years with a change. -/
theorem balances_match_after_success (runs : List SyncRun) (hg : Guarded (account hash) (Settles hash) Books.empty runs)
    (pre : List SyncRun) (r : SyncRun) (hpre : pre ++ [r] <+: runs)
    (hsuccess : (syncGlFromErp hash (run (fun s r => (syncGlFromErp hash s r).1) LedgerState.empty pre) r).2 = true)
    (year : ℕ) : (run (fun s r => (syncGlFromErp hash s r).1) LedgerState.empty (pre ++ [r])).Agrees year := by
  have hsettles : Settles hash (run (account hash) Books.empty pre) r := hg.at_prefix hpre
  have hupToDate : (run (account hash) Books.empty (pre ++ [r])).UpToDate := upToDate_run (pre ++ [r])
  rw [← state_run] at hsuccess ⊢
  refine hupToDate year fun hdirty => ?_
  rw [run_concat] at hdirty
  rw [syncGlFromErp_eq] at hsuccess
  exact hdirty.2 (hsettles hsuccess year hdirty.1)

/-- A full fetch of one line of each of these years. -/
def fetchYears (years : List ℕ) (h : years.Nodup) : Fetch where
  forceFull := true
  journalIdToCode := ∅
  lines := years.map fun year : ℕ => oneLine year year
  distinct := by
    have hid : (OdooLine.id ∘ fun year : ℕ => oneLine year year) = Nat.cast := rfl
    rw [List.map_map, hid]
    exact h.map Nat.cast_injective

/-- The years of the table. -/
def tableYears (t : GlTable) : List ℕ := t.entries.filterMap fun e => e.2.columns.entryDate.map Date.year

theorem mem_tableYears {t : GlTable} {id : String} {row : GlRow} {year : ℕ} (hrow : t.get? id = some row)
    (hcounts : row.countsIn year = true) : year ∈ tableYears t := by
  simp only [GlRow.countsIn, Bool.and_eq_true, decide_eq_true_eq] at hcounts
  exact List.mem_filterMap.mpr ⟨(id, row), Dict.mem_entries_iff.mpr hrow, hcounts.2⟩

/-- A sync changes the years it fetches and those of the table only. -/
theorem changesYear_years {t : GlTable} {r : SyncRun} {year : ℕ} (h : ChangesYear hash t r year) :
    year ∈ r.fetch.impactedYears ∨ year ∈ tableYears t := by
  rcases h with ⟨-, e, he, -, hnew | ⟨row, hrow, hold⟩⟩ | ⟨-, id, row, hrow, hold, -⟩
  · simp only [GlRow.countsIn, Bool.and_eq_true, decide_eq_true_eq] at hnew
    exact Or.inl (List.mem_dedup.mpr (List.mem_filterMap.mpr ⟨e, he, hnew.2⟩))
  · exact Or.inr (mem_tableYears hrow hold)
  · exact Or.inr (mem_tableYears hrow hold)

/-- A sync of two years that fails at the first refresh. -/
def failedSync : SyncRun := ⟨fetchYears [2023, 2024] (by decide), some (.refresh [])⟩

/-- A sync of these years and of a third one. -/
def settlingSync : SyncRun := ⟨fetchYears [2023, 2024, 2025] (by decide), none⟩

theorem failedSync_years {year : ℕ} (h : year ∈ (account Business.entryId Books.empty failedSync).dirty ∨
    ChangesYear Business.entryId (account Business.entryId Books.empty failedSync).state.table settlingSync year) :
    year ∈ [2023, 2024, 2025] := by
  have htable : tableYears (account Business.entryId Books.empty failedSync).state.table = [2023, 2024] := by
    decide +kernel
  have hfetched : failedSync.fetch.impactedYears = [2023, 2024] := by decide +kernel
  have hsettled : settlingSync.fetch.impactedYears = [2023, 2024, 2025] := by decide +kernel
  rcases h with ⟨hempty | hchanges, -⟩ | hchanges
  · cases hempty
  · rcases changesYear_years hchanges with hy | hy
    · rw [hfetched] at hy
      simp only [List.mem_cons] at hy ⊢
      tauto
    · cases hy
  · rcases changesYear_years hchanges with hy | hy
    · exact hsettled ▸ hy
    · rw [htable] at hy
      simp only [List.mem_cons] at hy ⊢
      tauto

theorem balances_match_after_failed :
    (run (fun s r => (syncGlFromErp Business.entryId s r).1) LedgerState.empty ([failedSync] ++ [settlingSync])).Agrees
        2023 ∧
      (run (fun s r => (syncGlFromErp Business.entryId s r).1) LedgerState.empty
        ([failedSync] ++ [settlingSync])).Agrees 2025 := by
  have hfails : completes Business.entryId Books.empty.state.table failedSync = false := by decide +kernel
  have hrefreshed : refreshedYears Business.entryId (account Business.entryId Books.empty failedSync).state.table
      settlingSync = [2023, 2024, 2025] := by decide +kernel
  have hg : Guarded (account Business.entryId) (Settles Business.entryId) Books.empty
      ([failedSync] ++ [settlingSync]) := by
    refine ⟨?_, ?_, trivial⟩
    · intro hsuccess
      rw [hfails] at hsuccess
      cases hsuccess
    · intro _ year hyear
      rw [hrefreshed]
      exact failedSync_years hyear
  have hall := balances_match_after_success _ hg [failedSync] settlingSync (List.prefix_refl _) (by decide +kernel)
  exact ⟨hall 2023, hall 2025⟩

/-- A line of 2023 is missing in the second sync. -/
theorem balances_stale : ¬∀ (hash : Business → String) (runs pre : List SyncRun) (r : SyncRun), pre ++ [r] <+: runs →
    (syncGlFromErp hash (run (fun s r => (syncGlFromErp hash s r).1) LedgerState.empty pre) r).2 = true →
    ∀ year, (run (fun s r => (syncGlFromErp hash s r).1) LedgerState.empty (pre ++ [r])).Agrees year := by
  intro h
  have hstale := h Business.entryId _ [⟨fetchYears [2023, 2024] (by decide), none⟩]
    ⟨fetchYears [2024] (by decide), none⟩ (List.prefix_refl _) (by decide +kernel) 2023 1 "1020"
  revert hstale
  decide +kernel

end Runs

end Pinnokio.Ledger
