import Pinnokio.Ledger.GlSync
import Pinnokio.Ledger.Journals

/-!
# Incremental syncs of the general ledger

`sync_gl_from_erp` without `force_full` fetches the lines written since the day before the last successful run.  The
ERP goes on creating and modifying lines meanwhile, each with the current time as its `write_date`; a run may fail at
any of its steps.  Times are in microseconds.

* `step` — one step of a run, one write of the ERP, or time that passes;
* `Synced` — the invariant: a line older than the next lower bound is stored;
* `inv_step` — every step keeps it, as long as no run lasts a day;
* `traced_step` — a row is that of the first stored version of its line with the present data;
* `incremental_sync_misses_nothing` — after a successful run every line of the ERP at its fetch is stored with its data,
  and with the date of that version;
* `stored_fields_differ` — the date of the last update and the code of the journal may be older.
-/

namespace Pinnokio.Ledger.IncrementalSync

open Pinnokio Pinnokio.Runs Pinnokio.Numbers Pinnokio.Ledger

/-! ### Time and the ERP -/

/-- A day. -/
def day : ℤ := 86400 * 1000000

/-- The text of a `write_date`. -/
def stamp (t : ℤ) : String :=
  let second := (t % day / 1000000).toNat
  isoDay (t / day) ++ " " ++ padded 2 (second / 3600) ++ ":" ++ padded 2 (second / 60 % 60) ++ ":" ++
    padded 2 (second % 60)

/-- `safe_date`: midnight of the day before the last sync. -/
def safeDate (lastSync : ℤ) : ℤ := (lastSync - day) / day * day

/-- A line of the ERP and the time it was last written. -/
structure ErpLine where
  line : OdooLine
  writtenAt : ℤ

/-- The lines of the ERP. -/
structure Erp where
  lines : List ErpLine
  distinct : (lines.map fun l => l.line.id).Nodup

/-- Create a line, or modify the one that has its id. -/
def Erp.write (erp : Erp) (line : OdooLine) (now : ℤ) : Erp where
  lines := erp.lines.filter (fun l => l.line.id ≠ line.id) ++ [⟨{ line with writeDate := some (stamp now) }, now⟩]
  distinct := by
    rw [List.map_append, List.nodup_append]
    refine ⟨erp.distinct.sublist (List.filter_sublist.map _), List.nodup_singleton _, fun a ha b hb hab => ?_⟩
    obtain ⟨l, hl, rfl⟩ := List.mem_map.mp ha
    have hne : l.line.id ≠ line.id := of_decide_eq_true (List.mem_filter.mp hl).2
    exact hne (hab.trans (List.mem_singleton.mp hb))

/-- `fetch_financial_records`, with the domain `write_date >= safe_date` if there is one. -/
def Erp.fetch (erp : Erp) (bound : Option ℤ) : List OdooLine :=
  (erp.lines.filter fun l => bound.all fun b => decide (b ≤ l.writtenAt)).map ErpLine.line

/-! ### Runs -/

/-- How far the current run has come.  From the fetch on it has the ERP as it was then. -/
inductive Phase where
  | idle
  | running (startedAt : ℤ)
  | mapped (startedAt : ℤ) (journalIdToCode : Dict ℤ String)
  | bounded (startedAt : ℤ) (journalIdToCode : Dict ℤ String) (bound : Option ℤ)
  | fetched (startedAt fetchedAt : ℤ) (journalIdToCode : Dict ℤ String) (lines : List OdooLine) (snapshot : Erp)
  | stored (startedAt fetchedAt : ℤ) (journalIdToCode : Dict ℤ String) (snapshot : Erp)

/-- A line as a run has stored it, with the mapping of journals of that run. -/
structure Version where
  journalIdToCode : Dict ℤ String
  line : OdooLine

/-- The entry of a version. -/
def Version.entry (v : Version) : GlEntry := odooGlToNeonEntry v.journalIdToCode v.line

/-- The data of a version. -/
def Version.business (v : Version) : Business := v.entry.business

/-- The clock, the ERP, the table, the row of `accounting.sync_metadata` with its `last_sync_time`, the mappings of
journals the runs have used and the versions of lines they have stored so far, and the current run. -/
structure World where
  now : ℤ
  erp : Erp
  table : GlTable
  metadata : Option (Option ℤ)
  mappings : List (Dict ℤ String)
  versions : List Version
  phase : Phase

/-- What happens: time passes, the ERP writes a line, or the run takes its next step or fails. -/
inductive Event where
  | wait (time : ℕ)
  | write (line : OdooLine)
  | start
  | journals (journalIdToCode : Dict ℤ String)
  | readMetadata
  | fetch
  | store
  | finish
  | fail

/-- Before the first run, with nothing in the ERP and in the table. -/
def World.initial (now : ℤ) : World := ⟨now, ⟨[], List.nodup_nil⟩, ∅, none, [], [], .idle⟩

/-- The effect of an event; a step the run is not at has none.  The refresh of the balances, between the store and the
end of a run, does not touch the table. -/
def step (hash : Business → String) (w : World) : Event → World
  | .wait time => { w with now := w.now + time }
  | .write line => { w with erp := w.erp.write line w.now }
  | .start =>
      match w.phase with
      -- the row is inserted if there is none
      | .idle => { w with metadata := some w.metadata.join, phase := .running w.now }
      | _ => w
  | .journals journalIdToCode =>
      match w.phase with
      | .running startedAt =>
          { w with mappings := w.mappings ++ [journalIdToCode], phase := .mapped startedAt journalIdToCode }
      | _ => w
  | .readMetadata =>
      match w.phase with
      | .mapped startedAt journalIdToCode =>
          { w with phase := .bounded startedAt journalIdToCode (w.metadata.join.map safeDate) }
      | _ => w
  | .fetch =>
      match w.phase with
      | .bounded startedAt journalIdToCode bound =>
          { w with phase := .fetched startedAt w.now journalIdToCode (w.erp.fetch bound) w.erp }
      | _ => w
  | .store =>
      match w.phase with
      | .fetched startedAt fetchedAt journalIdToCode lines snapshot =>
          { w with
            table := (incrementalSyncGlEntries hash w.table (lines.map (odooGlToNeonEntry journalIdToCode))).1
            versions := w.versions ++ lines.map (Version.mk journalIdToCode)
            phase := .stored startedAt fetchedAt journalIdToCode snapshot }
      | _ => w
  | .finish =>
      match w.phase with
      | .stored _ _ _ _ => { w with metadata := Journals.updateSyncMetadata w.metadata w.now, phase := .idle }
      | _ => w
  | .fail => { w with phase := .idle }

/-- A run that ends successfully has lasted less than a day. -/
def Short (w : World) : Event → Prop
  | .finish =>
      match w.phase with
      | .stored startedAt _ _ _ => w.now < startedAt + day
      | _ => True
  | _ => True

/-- The line has a row that is not deleted and has its data, with the code a run had for its journal. -/
def Stored (t : GlTable) (mappings : List (Dict ℤ String)) (line : OdooLine) : Prop :=
  ∃ row, t.get? (toString line.id) = some row ∧ row.isDeleted = false ∧
    ∃ m ∈ mappings, row.columns = (odooGlToNeonEntry m line).business.columns

/-- The versions of a line, in the order in which they were stored. -/
def versionsOf (versions : List Version) (id : ℤ) : List Version := versions.filter fun v => v.line.id = id

/-- Of some versions, the first one with the data of the last: there are no other data after it, and other data right
before it. -/
def FirstWithData (versions : List Version) (v : Version) : Prop :=
  ∃ before after, versions = before ++ v :: after ∧ (∀ later ∈ after, later.business = v.business) ∧
    ∀ previous ∈ before.getLast?, previous.business ≠ v.business

/-! ### The invariant -/

/-- The last sync is not in the future, and a line older than the next lower bound is stored. -/
def Synced (w : World) : Prop :=
  ∀ lastSync, w.metadata.join = some lastSync →
    lastSync ≤ w.now ∧ ∀ l ∈ w.erp.lines, safeDate lastSync ≤ l.writtenAt ∨ Stored w.table w.mappings l.line

/-- The run has begun after the last sync. -/
def Begun (w : World) (startedAt : ℤ) : Prop :=
  startedAt ≤ w.now ∧ ∀ lastSync, w.metadata.join = some lastSync → lastSync ≤ startedAt

/-- A line of the ERP is one of the fetch, or was written since. -/
def Since (w : World) (startedAt fetchedAt : ℤ) (snapshot : Erp) : Prop :=
  startedAt ≤ fetchedAt ∧ fetchedAt ≤ w.now ∧ ∀ l ∈ w.erp.lines, fetchedAt ≤ l.writtenAt ∨ l ∈ snapshot.lines

/-- What holds at each step of a run. -/
def Progress (w : World) : Prop :=
  match w.phase with
  | .idle => True
  | .running startedAt => Begun w startedAt
  | .mapped startedAt m => Begun w startedAt ∧ m ∈ w.mappings
  | .bounded startedAt m bound => Begun w startedAt ∧ m ∈ w.mappings ∧ bound = w.metadata.join.map safeDate
  | .fetched startedAt fetchedAt m lines snapshot =>
      Begun w startedAt ∧ m ∈ w.mappings ∧ Since w startedAt fetchedAt snapshot ∧
        (∃ bound, lines = snapshot.fetch bound) ∧
        ∀ l ∈ snapshot.lines, l.line ∈ lines ∨ Stored w.table w.mappings l.line
  | .stored startedAt fetchedAt m snapshot =>
      Begun w startedAt ∧ m ∈ w.mappings ∧ Since w startedAt fetchedAt snapshot ∧
        ∀ l ∈ snapshot.lines, Stored w.table w.mappings l.line

/-- The invariant of all histories. -/
structure Inv (hash : Business → String) (w : World) : Prop where
  hashed : Hashed hash w.table
  live : ∀ id row, w.table.get? id = some row → row.isDeleted = false
  synced : Synced w
  progress : Progress w

section Steps

variable {hash : Business → String} {w : World}

theorem safeDate_le (t : ℤ) : safeDate t ≤ t - day := Int.ediv_mul_le _ (by decide)

theorem safeDate_le_self (t : ℤ) : safeDate t ≤ t := by
  have hle := safeDate_le t
  have hday : day = 86400000000 := rfl
  omega

theorem Stored.mono {t : GlTable} {ms : List (Dict ℤ String)} {line : OdooLine} (h : Stored t ms line)
    (m : Dict ℤ String) : Stored t (ms ++ [m]) line := by
  obtain ⟨row, hrow, hlive, m', hm', hcols⟩ := h
  exact ⟨row, hrow, hlive, m', List.mem_append_left _ hm', hcols⟩

theorem mem_write {erp : Erp} {line : OdooLine} {now : ℤ} {l : ErpLine} (h : l ∈ (erp.write line now).lines) :
    l ∈ erp.lines ∨ l.writtenAt = now := by
  rcases List.mem_append.mp h with h | h
  · exact Or.inl (List.mem_filter.mp h).1
  · rw [List.mem_singleton.mp h]
    exact Or.inr rfl

/-- Lines of the ERP with one id are one line. -/
theorem Erp.eq_of_id {erp : Erp} {l l' : ErpLine} (hl : l ∈ erp.lines) (hl' : l' ∈ erp.lines)
    (h : l.line.id = l'.line.id) : l = l' :=
  List.inj_on_of_nodup_map erp.distinct hl hl' h

theorem mem_fetch {erp : Erp} {bound : Option ℤ} {line : OdooLine} :
    line ∈ erp.fetch bound ↔ ∃ l ∈ erp.lines, (bound.all fun b => decide (b ≤ l.writtenAt)) = true ∧ l.line = line := by
  simp only [Erp.fetch, List.mem_map, List.mem_filter, and_assoc]

theorem fetch_ids_nodup (erp : Erp) (bound : Option ℤ) (m : Dict ℤ String) :
    (((erp.fetch bound).map (odooGlToNeonEntry m)).map GlEntry.entryId).Nodup := by
  have hid : GlEntry.entryId ∘ odooGlToNeonEntry m = toString ∘ OdooLine.id := rfl
  have hids : ((erp.fetch bound).map OdooLine.id).Nodup := by
    rw [Erp.fetch, List.map_map]
    exact erp.distinct.sublist (List.filter_sublist.map _)
  rw [List.map_map, hid, ← List.map_map]
  exact hids.map toString_int_injective

/-- What the store leaves of a line: it is fetched and stored, or its row is as before. -/
theorem store_line (hinj : Function.Injective hash) {t : GlTable} (hhashed : Hashed hash t)
    (hlive : ∀ id row, t.get? id = some row → row.isDeleted = false) {ms : List (Dict ℤ String)} {m : Dict ℤ String}
    (hm : m ∈ ms) {erp : Erp} {bound : Option ℤ} {l : ErpLine} (hl : l ∈ erp.lines)
    (h : l.line ∈ erp.fetch bound ∨ Stored t ms l.line) :
    Stored (incrementalSyncGlEntries hash t ((erp.fetch bound).map (odooGlToNeonEntry m))).1 ms l.line := by
  have hnodup := fetch_ids_nodup erp bound m
  by_cases hfetched : l.line ∈ erp.fetch bound
  · have hget := @get?_incrementalSync hash t _ hnodup _ (List.mem_map_of_mem hfetched)
    cases hs : stores hash t (odooGlToNeonEntry m l.line) with
    | true =>
        rw [hs, if_pos rfl] at hget
        exact ⟨_, hget, rfl, m, hm, rfl⟩
    | false =>
        rw [hs, if_neg Bool.false_ne_true] at hget
        -- the row has the hash of the entry already
        cases hrow : t.get? (odooGlToNeonEntry m l.line).entryId with
        | none => simp [stores, hrow] at hs
        | some row =>
            have hhash : row.pinnokioHash = hash (odooGlToNeonEntry m l.line).business := by
              simpa [stores, hrow] using hs
            rw [hrow] at hget
            exact ⟨row, hget, hlive _ row hrow, m, hm, hhashed.columns_eq hinj hrow hhash⟩
  · obtain ⟨row, hrow, hdel, hcols⟩ := h.resolve_left hfetched
    refine ⟨row, ?_, hdel, hcols⟩
    rw [get?_incrementalSync_other t, hrow]
    intro hid
    obtain ⟨e, he, heq⟩ := List.mem_map.mp hid
    obtain ⟨line, hline, rfl⟩ := List.mem_map.mp he
    obtain ⟨l', hl', -, rfl⟩ := mem_fetch.mp hline
    have hsame : l' = l := Erp.eq_of_id hl' hl (toString_int_injective heq)
    exact hfetched (hsame ▸ hline)

theorem live_store {t : GlTable} (hlive : ∀ id row, t.get? id = some row → row.isDeleted = false)
    (entries : List GlEntry) :
    ∀ id row, (incrementalSyncGlEntries hash t entries).1.get? id = some row → row.isDeleted = false := by
  unfold incrementalSyncGlEntries
  dsimp only
  induction entries generalizing t with
  | nil => exact hlive
  | cons e entries ih =>
      refine ih fun id row hrow => ?_
      rw [get?_upsert] at hrow
      split at hrow
      · cases hrow
        rfl
      · exact hlive id row hrow

/-- Time that passes changes nothing. -/
theorem inv_wait (hw : Inv hash w) (time : ℕ) : Inv hash { w with now := w.now + time } := by
  have hle : w.now ≤ w.now + time := by omega
  have hbegun : ∀ s, Begun w s → Begun { w with now := w.now + time } s := fun s h => ⟨h.1.trans hle, h.2⟩
  have hsince : ∀ s f e, Since w s f e → Since { w with now := w.now + time } s f e :=
    fun s f e h => ⟨h.1, h.2.1.trans hle, h.2.2⟩
  refine ⟨hw.hashed, hw.live, fun T hT => ⟨(hw.synced T hT).1.trans hle, (hw.synced T hT).2⟩, ?_⟩
  have hprogress := hw.progress
  unfold Progress at hprogress ⊢
  dsimp only at hprogress ⊢
  cases hphase : w.phase with
  | idle => trivial
  | running s =>
      rw [hphase] at hprogress
      exact hbegun s hprogress
  | mapped s m =>
      rw [hphase] at hprogress
      exact ⟨hbegun s hprogress.1, hprogress.2⟩
  | bounded s m bound =>
      rw [hphase] at hprogress
      exact ⟨hbegun s hprogress.1, hprogress.2⟩
  | fetched s f m lines snapshot =>
      rw [hphase] at hprogress
      obtain ⟨h1, h2, h3, h4⟩ := hprogress
      exact ⟨hbegun s h1, h2, hsince s f snapshot h3, h4⟩
  | stored s f m snapshot =>
      rw [hphase] at hprogress
      obtain ⟨h1, h2, h3, h4⟩ := hprogress
      exact ⟨hbegun s h1, h2, hsince s f snapshot h3, h4⟩

/-- A line that is written now will be fetched by the next run. -/
theorem inv_write (hw : Inv hash w) (line : OdooLine) : Inv hash { w with erp := w.erp.write line w.now } := by
  have hsince : ∀ s f e, Since w s f e → Since { w with erp := w.erp.write line w.now } s f e := by
    intro s f e h
    refine ⟨h.1, h.2.1, fun l hl => ?_⟩
    rcases mem_write hl with hl | hl
    · exact h.2.2 l hl
    · exact Or.inl (h.2.1.trans_eq hl.symm)
  refine ⟨hw.hashed, hw.live, fun T hT => ⟨(hw.synced T hT).1, fun l hl => ?_⟩, ?_⟩
  · rcases mem_write hl with hl | hl
    · exact (hw.synced T hT).2 l hl
    · exact Or.inl (((safeDate_le_self T).trans (hw.synced T hT).1).trans_eq hl.symm)
  · have hprogress := hw.progress
    unfold Progress at hprogress ⊢
    dsimp only at hprogress ⊢
    cases hphase : w.phase with
    | fetched s f m lines snapshot =>
        rw [hphase] at hprogress
        obtain ⟨h1, h2, h3, h4⟩ := hprogress
        exact ⟨h1, h2, hsince s f snapshot h3, h4⟩
    | stored s f m snapshot =>
        rw [hphase] at hprogress
        obtain ⟨h1, h2, h3, h4⟩ := hprogress
        exact ⟨h1, h2, hsince s f snapshot h3, h4⟩
    | _ =>
        rw [hphase] at hprogress
        exact hprogress

/-- Where a run stands decides what holds of it. -/
theorem progress_of {phase : Phase} (h : w.phase = phase) (hw : Inv hash w) : Progress { w with phase := phase } := by
  subst h
  exact hw.progress

theorem inv_start (hw : Inv hash w) : Inv hash (step hash w .start) := by
  simp only [step]
  split
  · exact ⟨hw.hashed, hw.live, hw.synced, le_refl _, fun T hT => (hw.synced T hT).1⟩
  · exact hw

theorem inv_journals (hw : Inv hash w) (m : Dict ℤ String) : Inv hash (step hash w (.journals m)) := by
  simp only [step]
  split
  · next startedAt hphase =>
    have hbegun : Begun w startedAt := progress_of hphase hw
    have hsynced : ∀ T, w.metadata.join = some T →
        T ≤ w.now ∧ ∀ l ∈ w.erp.lines, safeDate T ≤ l.writtenAt ∨ Stored w.table (w.mappings ++ [m]) l.line := by
      intro T hT
      obtain ⟨hnow, hlines⟩ := hw.synced T hT
      exact ⟨hnow, fun l hl => (hlines l hl).imp_right fun h => h.mono m⟩
    exact ⟨hw.hashed, hw.live, hsynced, hbegun, List.mem_append_right _ (List.mem_singleton_self m)⟩
  · exact hw

theorem inv_readMetadata (hw : Inv hash w) : Inv hash (step hash w .readMetadata) := by
  simp only [step]
  split
  · next startedAt m hphase =>
    have hmapped : Begun w startedAt ∧ m ∈ w.mappings := progress_of hphase hw
    exact ⟨hw.hashed, hw.live, hw.synced, hmapped.1, hmapped.2, rfl⟩
  · exact hw

/-- A line that the fetch leaves out is older than its bound, and stored. -/
theorem fetched_or_stored (hw : Synced w) {l : ErpLine} (hl : l ∈ w.erp.lines) :
    l.line ∈ w.erp.fetch (w.metadata.join.map safeDate) ∨ Stored w.table w.mappings l.line := by
  cases hmeta : w.metadata.join with
  | none => exact Or.inl (mem_fetch.mpr ⟨l, hl, rfl, rfl⟩)
  | some T =>
      refine ((hw T hmeta).2 l hl).imp_left fun hle => ?_
      exact mem_fetch.mpr ⟨l, hl, decide_eq_true hle, rfl⟩

theorem inv_fetch (hw : Inv hash w) : Inv hash (step hash w .fetch) := by
  simp only [step]
  split
  · next startedAt m bound hphase =>
    have hbounded : Begun w startedAt ∧ m ∈ w.mappings ∧ bound = w.metadata.join.map safeDate :=
      progress_of hphase hw
    obtain ⟨hbegun, hm, rfl⟩ := hbounded
    have hsince : Since w startedAt w.now w.erp := ⟨hbegun.1, le_refl _, fun l hl => Or.inr hl⟩
    exact ⟨hw.hashed, hw.live, hw.synced, hbegun, hm, hsince, ⟨_, rfl⟩, fun l hl => fetched_or_stored hw.synced hl⟩
  · exact hw

theorem inv_store (hinj : Function.Injective hash) (hw : Inv hash w) : Inv hash (step hash w .store) := by
  simp only [step]
  split
  · next startedAt fetchedAt m lines snapshot hphase =>
    have hfetched : Begun w startedAt ∧ m ∈ w.mappings ∧ Since w startedAt fetchedAt snapshot ∧
        (∃ bound, lines = snapshot.fetch bound) ∧
        ∀ l ∈ snapshot.lines, l.line ∈ lines ∨ Stored w.table w.mappings l.line := progress_of hphase hw
    obtain ⟨hbegun, hm, hsince, ⟨bound, rfl⟩, hlines⟩ := hfetched
    have hall := fun l hl => store_line hinj hw.hashed hw.live hm hl (hlines l hl)
    refine ⟨hw.hashed.incrementalSync _, live_store hw.live _, fun T hT => ⟨(hw.synced T hT).1, fun l hl => ?_⟩,
      hbegun, hm, hsince, hall⟩
    rcases hsince.2.2 l hl with hlate | hsnap
    · exact Or.inl ((safeDate_le_self T).trans ((hbegun.2 T hT).trans (hsince.1.trans hlate)))
    · exact Or.inr (hall l hsnap)
  · exact hw

/-- The end of a run is the last sync. -/
theorem join_updateSyncMetadata {metadata : Option (Option ℤ)} {now T : ℤ}
    (h : (Journals.updateSyncMetadata metadata now).join = some T) : T = now := by
  cases metadata with
  | none => cases h
  | some last =>
      cases h
      rfl

theorem inv_finish (hw : Inv hash w) (hshort : Short w .finish) : Inv hash (step hash w .finish) := by
  simp only [Short] at hshort
  simp only [step]
  split
  · next startedAt fetchedAt m snapshot hphase =>
    have hstored : Begun w startedAt ∧ m ∈ w.mappings ∧ Since w startedAt fetchedAt snapshot ∧
        ∀ l ∈ snapshot.lines, Stored w.table w.mappings l.line := progress_of hphase hw
    obtain ⟨-, -, hsince, hall⟩ := hstored
    rw [hphase] at hshort
    refine ⟨hw.hashed, hw.live, fun T hT => ?_, trivial⟩
    obtain rfl : T = w.now := join_updateSyncMetadata hT
    refine ⟨le_refl _, fun l hl => (hsince.2.2 l hl).imp (fun hlate => ?_) (hall l)⟩
    -- a line written after the fetch is newer than the next bound, as the run has not lasted a day
    have hle := safeDate_le w.now
    have hfirst := hsince.1
    omega
  · exact hw

/-- **Every event keeps the invariant**, as long as no run lasts a day. -/
theorem inv_step (hinj : Function.Injective hash) (hw : Inv hash w) (e : Event) (hshort : Short w e) :
    Inv hash (step hash w e) := by
  cases e with
  | wait time => exact inv_wait hw time
  | write line => exact inv_write hw line
  | start => exact inv_start hw
  | journals m => exact inv_journals hw m
  | readMetadata => exact inv_readMetadata hw
  | fetch => exact inv_fetch hw
  | store => exact inv_store hinj hw
  | finish => exact inv_finish hw hshort
  | fail => exact ⟨hw.hashed, hw.live, hw.synced, trivial⟩

theorem inv_initial (hash : Business → String) (now : ℤ) : Inv hash (World.initial now) := by
  refine ⟨Hashed.empty, fun id row hrow => ?_, fun T hT => ?_, trivial⟩
  · have hnone : (∅ : GlTable).get? id = some row := hrow
    rw [Dict.get?_empty] at hnone
    cases hnone
  · have hnone : (none : Option (Option ℤ)).join = some T := hT
    cases hnone

theorem inv_run (hinj : Function.Injective hash) (now : ℤ) (events : List Event)
    (hshort : Guarded (step hash) Short (World.initial now) events) :
    Inv hash (run (step hash) (World.initial now) events) :=
  run_invariant (fun _ w => Inv hash w) (inv_initial hash now) events
    (fun _ e _ hw hshort => inv_step hinj hw e hshort) hshort

/-- The mapping decides the code of the journal and nothing else. -/
theorem odooGlToNeonEntry_congr {m m' : Dict ℤ String} {line : OdooLine}
    (h : journalCodeOf m' line.journalId = journalCodeOf m line.journalId) :
    odooGlToNeonEntry m' line = odooGlToNeonEntry m line := by
  unfold odooGlToNeonEntry
  rw [h]

end Steps

/-! ### The version of a row -/

section Versions

variable {hash : Business → String} {w : World} {versions : List Version} {v x : Version}

theorem FirstWithData.last (h : FirstWithData versions v) :
    ∀ last ∈ versions.getLast?, last.business = v.business := by
  obtain ⟨before, after, rfl, hafter, -⟩ := h
  intro last hlast
  rw [List.getLast?_append_of_ne_nil _ (List.cons_ne_nil v after)] at hlast
  obtain rfl | hmem := List.mem_cons.mp (List.mem_of_getLast? hlast)
  · rfl
  · exact hafter last hmem

/-- A further version with the same data. -/
theorem FirstWithData.same (h : FirstWithData versions v) (hx : x.business = v.business) :
    FirstWithData (versions ++ [x]) v := by
  obtain ⟨before, after, rfl, hafter, hbefore⟩ := h
  refine ⟨before, after ++ [x], by rw [List.append_assoc, List.cons_append], fun later hlater => ?_, hbefore⟩
  obtain hlater | hlater := List.mem_append.mp hlater
  · exact hafter later hlater
  · rw [List.mem_singleton.mp hlater]
    exact hx

/-- A further version with other data. -/
theorem firstWithData_concat (hx : ∀ last ∈ versions.getLast?, last.business ≠ x.business) :
    FirstWithData (versions ++ [x]) x := by
  refine ⟨versions, [], rfl, fun later hlater => ?_, hx⟩
  cases hlater

theorem versionsOf_concat (versions : List Version) (x : Version) (id : ℤ) :
    versionsOf (versions ++ [x]) id = versionsOf versions id ++ if x.line.id = id then [x] else [] := by
  rw [versionsOf, List.filter_append, versionsOf, List.filter_singleton]
  by_cases hid : x.line.id = id <;> simp [hid]

/-- A line has a row if it has a version, and its row is that of the first version with the data of the last one. -/
def Traced (hash : Business → String) (t : GlTable) (versions : List Version) : Prop :=
  ∀ id : ℤ, (t.get? (toString id) = none → versionsOf versions id = []) ∧
    ∀ row ∈ t.get? (toString id), ∃ v, FirstWithData (versionsOf versions id) v ∧
      row.pinnokioHash = hash v.business ∧ row.columns = v.business.columns ∧ row.lastUpdateDate = v.line.writeDate

/-- An upsert stores a version with other data only. -/
theorem traced_upsert (hinj : Function.Injective hash) {t : GlTable} (h : Traced hash t versions) (x : Version) :
    Traced hash (upsert hash t x.entry) (versions ++ [x]) := by
  intro id
  have hentry : x.entry.entryId = toString x.line.id := rfl
  rw [get?_upsert, hentry, versionsOf_concat]
  by_cases hid : x.line.id = id
  · subst hid
    rw [if_pos rfl]
    obtain ⟨hnone, hsome⟩ := h x.line.id
    cases hstores : stores hash t x.entry with
    | true =>
        rw [if_pos ⟨rfl, rfl⟩]
        refine ⟨fun hnil => absurd hnil (Option.some_ne_none _), fun row hrow => ?_⟩
        cases hrow
        refine ⟨x, firstWithData_concat fun last hlast => ?_, rfl, rfl, rfl⟩
        rw [stores, hentry] at hstores
        cases hget : t.get? (toString x.line.id) with
        | none =>
            rw [hnone hget] at hlast
            cases hlast
        | some row =>
            rw [hget] at hstores
            obtain ⟨v, hfirst, hhash, -, -⟩ := hsome row hget
            have hne : row.pinnokioHash ≠ hash x.business := of_decide_eq_true hstores
            rw [hfirst.last last hlast]
            exact fun heq => hne (hhash.trans (congrArg hash heq))
    | false =>
        rw [if_neg fun hand => Bool.false_ne_true hand.2]
        rw [stores, hentry] at hstores
        cases hget : t.get? (toString x.line.id) with
        | none =>
            rw [hget] at hstores
            cases hstores
        | some row =>
            rw [hget] at hstores
            refine ⟨fun hnil => absurd hnil (Option.some_ne_none _), fun row' hrow' => ?_⟩
            cases hrow'
            obtain ⟨v, hfirst, hhash, hcols, hdate⟩ := hsome row hget
            have heq : row.pinnokioHash = hash x.business := not_not.mp (of_decide_eq_false hstores)
            exact ⟨v, hfirst.same (hinj (heq.symm.trans hhash)), hhash, hcols, hdate⟩
  · have hother : toString id ≠ toString x.line.id := fun heq => hid (toString_int_injective heq).symm
    rw [if_neg fun hand => hother hand.1, if_neg hid, List.append_nil]
    exact h id

/-- So does the store of a run. -/
theorem traced_store (hinj : Function.Injective hash) {t : GlTable} (h : Traced hash t versions) (m : Dict ℤ String)
    (lines : List OdooLine) :
    Traced hash (incrementalSyncGlEntries hash t (lines.map (odooGlToNeonEntry m))).1
      (versions ++ lines.map (Version.mk m)) := by
  show Traced hash ((lines.map (odooGlToNeonEntry m)).foldl (upsert hash) t) _
  induction lines generalizing t versions with
  | nil =>
      rw [List.map_nil, List.map_nil, List.append_nil]
      exact h
  | cons line lines ih =>
      have hstep := ih (traced_upsert hinj h ⟨m, line⟩)
      rw [List.append_assoc] at hstep
      exact hstep

/-- **Every event keeps the rows those of their versions.** -/
theorem traced_step (hinj : Function.Injective hash) (h : Traced hash w.table w.versions) (e : Event) :
    Traced hash (step hash w e).table (step hash w e).versions := by
  cases e with
  | store =>
      simp only [step]
      split
      · exact traced_store hinj h _ _
      · exact h
  | wait time => exact h
  | write line => exact h
  | fail => exact h
  | start | journals m | readMetadata | fetch | finish =>
      simp only [step]
      split <;> exact h

theorem traced_run (hinj : Function.Injective hash) (now : ℤ) (events : List Event) :
    Traced hash (run (step hash) (World.initial now) events).table
      (run (step hash) (World.initial now) events).versions := by
  induction events using List.reverseRecOn with
  | nil =>
      refine fun id => ⟨fun _ => rfl, fun row hrow => ?_⟩
      rw [run_nil] at hrow
      cases hrow
  | append_singleton events e ih =>
      rw [run_concat]
      exact traced_step hinj ih e

end Versions

/-- **Incremental syncs miss nothing**: after a successful run, each line the ERP had at the fetch has a row with its
data, the code of the journal being that of the mapping of a run so far, hence that of this run if they agree on the
journal.  Of the versions of the line that the runs have stored, the row is the first one since which the data are the
same, and has the date of that one. -/
theorem incremental_sync_misses_nothing (hash : Business → String) (hinj : Function.Injective hash) (now : ℤ)
    (events : List Event) (hshort : Guarded (step hash) Short (World.initial now) (events ++ [.finish]))
    {startedAt fetchedAt : ℤ} {m : Dict ℤ String} {snapshot : Erp}
    (hphase : (run (step hash) (World.initial now) events).phase = .stored startedAt fetchedAt m snapshot) :
    ∀ l ∈ snapshot.lines, ∃ row,
      (run (step hash) (World.initial now) (events ++ [.finish])).table.get? (toString l.line.id) = some row ∧
      row.isDeleted = false ∧
      (∃ m' ∈ (run (step hash) (World.initial now) events).mappings,
        row.columns = (odooGlToNeonEntry m' l.line).business.columns) ∧
      ((∀ m' ∈ (run (step hash) (World.initial now) events).mappings,
          journalCodeOf m' l.line.journalId = journalCodeOf m l.line.journalId) →
        row.columns = (odooGlToNeonEntry m l.line).business.columns) ∧
      ∃ v, FirstWithData (versionsOf (run (step hash) (World.initial now) events).versions l.line.id) v ∧
        row.columns = v.business.columns ∧ row.lastUpdateDate = v.line.writeDate := by
  intro l hl
  have hinv := inv_run hinj now events ((guarded_concat _ events _).mp hshort).1
  have htraced := traced_run hinj now events
  rw [run_concat]
  generalize run (step hash) (World.initial now) events = w at hphase hinv htraced ⊢
  have hall : Begun w startedAt ∧ m ∈ w.mappings ∧ Since w startedAt fetchedAt snapshot ∧
      ∀ l ∈ snapshot.lines, Stored w.table w.mappings l.line := progress_of hphase hinv
  obtain ⟨row, hrow, hlive, m', hm', hcols⟩ := hall.2.2.2 l hl
  have htable : (step hash w .finish).table = w.table := by
    simp only [step, hphase]
  obtain ⟨v, hfirst, -, hversion, hdate⟩ := (htraced l.line.id).2 row hrow
  refine ⟨row, htable ▸ hrow, hlive, ⟨m', hm', hcols⟩, fun hsame => ?_, v, hfirst, hversion, hdate⟩
  rw [hcols, odooGlToNeonEntry_congr (hsame m' hm')]

/-- A run without a failure, up to the end. -/
def runSteps (journalIdToCode : Dict ℤ String) : List Event :=
  [.start, .journals journalIdToCode, .readMetadata, .fetch, .store]

/-- A line, and the run that stores it with its date. -/
theorem first_line_stored : ∃ hash : Business → String, Function.Injective hash ∧ ∃ row,
    (run (step hash) (World.initial 0) ((.write (oneLine 1 2024) :: runSteps ∅) ++ [.finish])).table.get? "1" =
        some row ∧ row.columns.debit = 1 ∧ row.lastUpdateDate = some "1970-01-01 00:00:00" := by
  obtain ⟨hash, hinj⟩ := exists_injective_hash
  refine ⟨hash, hinj, ?_⟩
  have hshort : Guarded (step hash) Short (World.initial 0) ((.write (oneLine 1 2024) :: runSteps ∅) ++ [.finish]) :=
    ⟨trivial, trivial, trivial, trivial, trivial, trivial, (by decide : (0 : ℤ) < 0 + day), trivial⟩
  obtain ⟨row, hrow, -, ⟨m, -, hcols⟩, -, v, ⟨before, after, hversions, -, -⟩, -, hdate⟩ :=
    incremental_sync_misses_nothing hash hinj 0 (.write (oneLine 1 2024) :: runSteps ∅) hshort rfl _
      (List.mem_singleton_self _)
  refine ⟨row, hrow, ?_, ?_⟩
  · rw [hcols]
    show numeric 2 1 = 1
    decide +kernel
  · -- It is the only version.
    have hv : v ∈ before ++ v :: after := List.mem_append_right _ List.mem_cons_self
    rw [← hversions] at hv
    rw [hdate, List.mem_singleton.mp hv]
    show some (stamp 0) = _
    decide +kernel

/-- After every successful run, each line the ERP had at the fetch has only rows with a property; `m` is the mapping of
the run. -/
def AlwaysStores (P : Dict ℤ String → OdooLine → GlRow → Prop) : Prop :=
  ∀ hash : Business → String, Function.Injective hash → ∀ (now : ℤ) (events : List Event),
    Guarded (step hash) Short (World.initial now) (events ++ [.finish]) → ∀ startedAt fetchedAt m snapshot,
      (run (step hash) (World.initial now) events).phase = .stored startedAt fetchedAt m snapshot →
      ∀ l ∈ snapshot.lines, ∀ row,
        (run (step hash) (World.initial now) (events ++ [.finish])).table.get? (toString l.line.id) = some row →
        P m l.line row

/-- A line is stored, modified and modified back; then it is stored again. -/
def modifiedBack : List Event :=
  .write (oneLine 1 2024) :: runSteps ∅ ++ [.finish, .wait 1000000, .write { oneLine 1 2024 with name := "Closing" },
    .write (oneLine 1 2024)] ++ runSteps ∅

/-- A line is stored three days after it was written; the journal has another code when the next run takes place. -/
def journalRecoded : List Event :=
  [.write (oneLine 1 2024), .wait 259200000000] ++ runSteps (Dict.ofList [(1, "BNK1")]) ++ [.finish] ++
    runSteps (Dict.ofList [(1, "BNK2")])

/-- The line as it is written at a time. -/
def writtenLine (now : ℤ) : OdooLine := { oneLine 1 2024 with writeDate := some (stamp now) }

theorem get?_firstStore (hash : Business → String) (e : GlEntry) :
    (incrementalSyncGlEntries hash ∅ [e]).1.get? e.entryId = some (storedRow hash ∅ e) := by
  have hnodup : ([e].map GlEntry.entryId).Nodup := List.nodup_singleton _
  rw [get?_incrementalSync ∅ hnodup (List.mem_singleton_self e)]
  rfl

/-- An entry with the data of its row leaves the row as it is. -/
theorem get?_secondStore (hash : Business → String) {e : GlEntry} (e' : GlEntry) (hid : e'.entryId = e.entryId)
    (hbusiness : e'.business = e.business) :
    (incrementalSyncGlEntries hash (incrementalSyncGlEntries hash ∅ [e]).1 [e']).1.get? e'.entryId =
      some (storedRow hash ∅ e) := by
  have hfirst := get?_firstStore hash e
  rw [← hid] at hfirst
  have hkeeps : stores hash (incrementalSyncGlEntries hash ∅ [e]).1 e' = false := by
    simp [stores, hfirst, storedRow, hbusiness]
  have hnodup : ([e'].map GlEntry.entryId).Nodup := List.nodup_singleton _
  rw [get?_incrementalSync _ hnodup (List.mem_singleton_self e'), hkeeps, if_neg Bool.false_ne_true, hfirst]

/-- A row keeps the date of its version when the data have not changed, and the code of the journal when the line has
not been written. -/
theorem stored_fields_differ :
    ¬AlwaysStores (fun _ line row => row.lastUpdateDate = line.writeDate) ∧
      ¬AlwaysStores (fun m line row => row.columns.journalCode = journalCodeOf m line.journalId) := by
  obtain ⟨hash, hinj⟩ := exists_injective_hash
  constructor
  · intro h
    have hshort : Guarded (step hash) Short (World.initial 0) (modifiedBack ++ [.finish]) :=
      ⟨trivial, trivial, trivial, trivial, trivial, trivial, (by decide : (0 : ℤ) < 0 + day), trivial, trivial, trivial,
        trivial, trivial, trivial, trivial, trivial, (by decide : (1000000 : ℤ) < 1000000 + day), trivial⟩
    have hrow : (run (step hash) (World.initial 0) (modifiedBack ++ [.finish])).table.get?
        (toString (writtenLine 1000000).id) = some (storedRow hash ∅ (odooGlToNeonEntry ∅ (writtenLine 0))) :=
      get?_secondStore hash (odooGlToNeonEntry ∅ (writtenLine 1000000)) rfl rfl
    have hdate := h hash hinj 0 modifiedBack hshort _ _ _ _ rfl ⟨writtenLine 1000000, 1000000⟩
      (List.mem_singleton_self _) _ hrow
    have hstamp : some (stamp 0) = some (stamp 1000000) := hdate
    exact absurd hstamp (by decide +kernel)
  · intro h
    have hshort : Guarded (step hash) Short (World.initial 0) (journalRecoded ++ [.finish]) :=
      ⟨trivial, trivial, trivial, trivial, trivial, trivial, trivial,
        (by decide : (259200000000 : ℤ) < 259200000000 + day), trivial, trivial, trivial, trivial, trivial,
        (by decide : (259200000000 : ℤ) < 259200000000 + day), trivial⟩
    have hrow : (run (step hash) (World.initial 0) (journalRecoded ++ [.finish])).table.get?
        (toString (writtenLine 0).id) =
          some (storedRow hash ∅ (odooGlToNeonEntry (Dict.ofList [(1, "BNK1")]) (writtenLine 0))) :=
      get?_firstStore hash (odooGlToNeonEntry (Dict.ofList [(1, "BNK1")]) (writtenLine 0))
    have hcode := h hash hinj 0 journalRecoded hshort _ _ _ _ rfl ⟨writtenLine 0, 0⟩ (List.mem_singleton_self _) _ hrow
    have htext : "BNK1" = "BNK2" := hcode
    exact absurd htext (by decide)

end Pinnokio.Ledger.IncrementalSync
