import Mathlib.Data.List.Nodup
import Pinnokio.Lib.Dict
import Pinnokio.Lib.Runs
import Pinnokio.Lib.Text

/-!
# The companies that two managers remember

The managers of the HR data and of the ledger both map the path of a mandate to the id of its row in `core.companies`,
and both keep what they have found for the lifetime of the process.  The HR manager creates and deletes the rows, and
keeps its own cache up to date.

* `lookup_eq_iff` — a manager answers like the table exactly when its cache agrees with the table;
* `rowId_insert`, `rowId_delete` — what creating and deleting a company do to the table;
* `sound_step` — paths and ids stay unique;
* `lookups_fresh_iff` — **no lookup is stale** exactly when no company is deleted that the ledger's manager has found.
-/

namespace Pinnokio.Tenancy.CompanyCaches

open Pinnokio.Runs Pinnokio.Text

/-! ### The tables -/

/-- A row of `core.accounts`. -/
structure Account where
  id : ℕ
  firebaseUid : String
  displayName : String
  email : String

/-- A row of `core.companies`. -/
structure Company where
  id : ℕ
  accountId : ℕ
  firebaseMandatePath : String
  firebaseMandateId : Option String
  firebaseParentId : Option String
  name : String
  country : String
  countryCode : Option String
  region : Option String
  regionCode : Option String

/-- A row of `hr.employees`. -/
structure Employee where
  id : ℕ
  companyId : ℕ

/-- The tables; of the contracts and the payroll results, the employees they are of, and of the payroll items, the
companies.  Ids are drawn in order, and never twice. -/
structure Database where
  accounts : List Account
  companies : List Company
  employees : List Employee
  contracts : List ℕ
  payrollResults : List ℕ
  companyPayrollItems : List ℕ
  drawn : ℕ

/-- `SELECT id FROM core.companies WHERE firebase_mandate_path = $1`. -/
def Database.companyId? (db : Database) (mandatePath : String) : Option ℕ :=
  (db.companies.find? fun row => row.firebaseMandatePath = mandatePath).map Company.id

/-- The tables and the caches of the two managers. -/
structure Process where
  db : Database
  hr : Dict String ℕ
  accounting : Dict String ℕ

/-! ### Lookups -/

/-- A lookup in a cache and then in the table, with the cache afterwards. -/
def lookup (db : Database) (cache : Dict String ℕ) (mandatePath : String) : Option ℕ × Dict String ℕ :=
  match cache.get? mandatePath with
  | some companyId => (some companyId, cache)
  | none =>
      match db.companyId? mandatePath with
      | some companyId => (some companyId, cache.set mandatePath companyId)
      | none => (none, cache)

/-- `NeonHRManager.get_company_id_from_mandate_path`. -/
def NeonHRManager.getCompanyIdFromMandatePath (p : Process) (mandatePath : String) : Option ℕ × Process :=
  let (companyId, cache) := lookup p.db p.hr mandatePath
  (companyId, { p with hr := cache })

/-- `NeonAccountingManager.get_company_id_from_mandate_path`. -/
def NeonAccountingManager.getCompanyIdFromMandatePath (p : Process) (mandatePath : String) : Option ℕ × Process :=
  let (companyId, cache) := lookup p.db p.accounting mandatePath
  (companyId, { p with accounting := cache })

/-! ### Creating and deleting companies -/

/-- The arguments of `get_or_create_company`. -/
structure CompanyArgs where
  accountFirebaseUid : String
  mandatePath : String
  companyName : String
  country : String
  countryCode : Option String := none
  region : Option String := none
  regionCode : Option String := none

/-- The account of a Firebase uid, which is inserted if it is not there. -/
def Database.account (db : Database) (firebaseUid : String) : Account × Database :=
  match db.accounts.find? fun row => row.firebaseUid = firebaseUid with
  | some account => (account, db)
  | none =>
      let account : Account := ⟨db.drawn, firebaseUid, "Imported Account", firebaseUid ++ "@imported.local"⟩
      (account, { db with accounts := db.accounts ++ [account], drawn := db.drawn + 1 })

/-- `INSERT INTO core.companies`, with the id of the row. -/
def Database.insertCompany (db : Database) (accountId : ℕ) (args : CompanyArgs) : ℕ × Database :=
  let parts := split args.mandatePath '/'
  let company : Company :=
    { id := db.drawn
      accountId := accountId
      firebaseMandatePath := args.mandatePath
      firebaseMandateId := parts[3]?
      firebaseParentId := parts[1]?
      name := args.companyName
      country := args.country
      countryCode := args.countryCode
      region := args.region
      regionCode := args.regionCode }
  (db.drawn, { db with companies := db.companies ++ [company], drawn := db.drawn + 1 })

/-- `get_or_create_company`. -/
def getOrCreateCompany (p : Process) (args : CompanyArgs) : ℕ × Process :=
  let (existing, p) := NeonHRManager.getCompanyIdFromMandatePath p args.mandatePath
  match existing with
  | some companyId => (companyId, p)
  | none =>
      let (account, db) := p.db.account args.accountFirebaseUid
      let (companyId, db) := db.insertCompany account.id args
      (companyId, { p with db := db, hr := p.hr.set args.mandatePath companyId })

/-- The rows deleted from each table. -/
structure DeletedCounts where
  employees : ℕ
  contracts : ℕ
  payrollResults : ℕ
  companyPayrollItems : ℕ

/-- What `delete_company` reports. -/
inductive DeleteReport where
  | notFound
  | deleted (companyId : ℕ) (deletedCounts : DeletedCounts)
  | failed (error : String)

/-- The employees of a company. -/
def Database.isStaff (db : Database) (companyId employeeId : ℕ) : Bool :=
  db.employees.any fun row => row.companyId = companyId ∧ row.id = employeeId

/-- The `cascade` of `delete_company`. -/
def Database.deleteHr (db : Database) (companyId : ℕ) : DeletedCounts × Database :=
  (⟨db.employees.countP fun row => row.companyId = companyId, db.contracts.countP (db.isStaff companyId),
      db.payrollResults.countP (db.isStaff companyId), db.companyPayrollItems.countP fun id => id = companyId⟩,
    { db with
      payrollResults := db.payrollResults.filter fun id => !db.isStaff companyId id
      contracts := db.contracts.filter fun id => !db.isStaff companyId id
      employees := db.employees.filter fun row => row.companyId ≠ companyId
      companyPayrollItems := db.companyPayrollItems.filter fun id => id ≠ companyId })

/-- `DELETE FROM core.companies WHERE id = $1`. -/
def Database.deleteCompanyRow (db : Database) (companyId : ℕ) : Database :=
  { db with companies := db.companies.filter fun row => row.id ≠ companyId }

/-- `delete_company`, with the error that its transaction raises, if it does. -/
def deleteCompany (p : Process) (mandatePath : String) (cascade : Bool) (error : Option String) :
    DeleteReport × Process :=
  let (companyId, p) := NeonHRManager.getCompanyIdFromMandatePath p mandatePath
  match companyId with
  | none => (.notFound, p)
  | some companyId =>
      match error with
      | some error => (.failed error, p)
      | none =>
          let (deletedCounts, db) := if cascade then p.db.deleteHr companyId else (⟨0, 0, 0, 0⟩, p.db)
          (.deleted companyId deletedCounts,
            { p with db := db.deleteCompanyRow companyId, hr := p.hr.erase mandatePath })

/-- A call. -/
inductive Op where
  | getOrCreate (args : CompanyArgs)
  | delete (mandatePath : String) (cascade : Bool) (error : Option String)
  | hrLookup (mandatePath : String)
  | accountingLookup (mandatePath : String)

/-- One call. -/
def step (p : Process) : Op → Process
  | .getOrCreate args => (getOrCreateCompany p args).2
  | .delete mandatePath cascade error => (deleteCompany p mandatePath cascade error).2
  | .hrLookup mandatePath => (NeonHRManager.getCompanyIdFromMandatePath p mandatePath).2
  | .accountingLookup mandatePath => (NeonAccountingManager.getCompanyIdFromMandatePath p mandatePath).2

/-- No row, and nothing remembered. -/
def start : Process := ⟨⟨[], [], [], [], [], [], 0⟩, ∅, ∅⟩

/-- **No lookup is stale**: whatever path is looked up next, both managers answer like the table. -/
def LookupsFresh (p : Process) : Prop :=
  ∀ mandatePath, (NeonHRManager.getCompanyIdFromMandatePath p mandatePath).1 = p.db.companyId? mandatePath ∧
    (NeonAccountingManager.getCompanyIdFromMandatePath p mandatePath).1 = p.db.companyId? mandatePath

/-- A company that is deleted has not been found by the ledger's manager. -/
def KeepsFresh (p : Process) : Op → Prop
  | .delete mandatePath _ none => mandatePath ∉ p.accounting.keys
  | _ => True

/-! ### What a cache holds -/

section Cache

variable {db : Database} {cache : Dict String ℕ} {p : Process}

/-- A cache agrees with the table. -/
def Agrees (db : Database) (cache : Dict String ℕ) : Prop :=
  ∀ mandatePath companyId, cache.get? mandatePath = some companyId → db.companyId? mandatePath = some companyId

/-- What a lookup answers. -/
theorem lookup_fst (mandatePath : String) :
    (lookup db cache mandatePath).1 = (cache.get? mandatePath).or (db.companyId? mandatePath) := by
  unfold lookup
  cases cache.get? mandatePath with
  | some companyId => rfl
  | none => cases db.companyId? mandatePath <;> rfl

/-- **A manager answers like the table** exactly when its cache agrees with it. -/
theorem lookup_eq_iff : (∀ mandatePath, (lookup db cache mandatePath).1 = db.companyId? mandatePath) ↔
    Agrees db cache := by
  constructor
  · intro h mandatePath companyId hcached
    rw [← h mandatePath, lookup_fst, hcached, Option.some_or]
  · intro h mandatePath
    rw [lookup_fst]
    cases hcached : cache.get? mandatePath with
    | none => exact Option.none_or
    | some companyId => rw [h mandatePath companyId hcached, Option.some_or]

theorem lookupsFresh_iff : LookupsFresh p ↔ Agrees p.db p.hr ∧ Agrees p.db p.accounting := by
  rw [← lookup_eq_iff, ← lookup_eq_iff]
  exact forall_and

/-- A lookup remembers what the table says. -/
theorem agrees_lookup (h : Agrees db cache) (mandatePath : String) : Agrees db (lookup db cache mandatePath).2 := by
  unfold lookup
  cases cache.get? mandatePath with
  | some companyId => exact h
  | none =>
      cases hrow : db.companyId? mandatePath with
      | none => exact h
      | some companyId =>
          intro path id hcached
          rw [Dict.get?_set] at hcached
          split at hcached
          · next heq =>
            cases hcached
            rw [heq]
            exact hrow
          · exact h path id hcached

end Cache

/-! ### The table -/

/-- Paths and ids are unique, and the ids are those drawn so far. -/
structure Sound (db : Database) : Prop where
  below : ∀ row ∈ db.companies, row.id < db.drawn
  ids : (db.companies.map Company.id).Nodup
  paths : (db.companies.map Company.firebaseMandatePath).Nodup

section Table

variable {db : Database} {mandatePath : String} {companyId : ℕ}

/-- The row of a path. -/
theorem companyId_eq_some (hs : Sound db) : db.companyId? mandatePath = some companyId ↔
    ∃ row ∈ db.companies, row.firebaseMandatePath = mandatePath ∧ row.id = companyId := by
  rw [Database.companyId?, Option.map_eq_some_iff]
  constructor
  · rintro ⟨row, hfind, hid⟩
    exact ⟨row, List.mem_of_find?_eq_some hfind, by simpa using List.find?_some hfind, hid⟩
  · rintro ⟨row, hmem, hpath, hid⟩
    have hfound : (db.companies.find? fun row => row.firebaseMandatePath = mandatePath).isSome :=
      List.find?_isSome.mpr ⟨row, hmem, decide_eq_true hpath⟩
    obtain ⟨other, hother⟩ := Option.isSome_iff_exists.mp hfound
    have hpath' : other.firebaseMandatePath = mandatePath := by simpa using List.find?_some hother
    have hsame : other.firebaseMandatePath = row.firebaseMandatePath := hpath'.trans hpath.symm
    obtain rfl : other = row :=
      List.inj_on_of_nodup_map hs.paths (List.mem_of_find?_eq_some hother) hmem hsame
    exact ⟨other, hother, hid⟩

/-- **A company is created** under a path that has none. -/
theorem rowId_insert (accountId : ℕ) (args : CompanyArgs) (hnew : db.companyId? args.mandatePath = none)
    (path : String) : (db.insertCompany accountId args).2.companyId? path =
      if path = args.mandatePath then some db.drawn else db.companyId? path := by
  rw [Database.companyId?, Database.insertCompany]
  dsimp only
  rw [List.find?_append, Option.map_or]
  by_cases hpath : path = args.mandatePath
  · subst hpath
    rw [if_pos rfl]
    have hnone : (db.companies.find? fun row => row.firebaseMandatePath = args.mandatePath).map Company.id = none :=
      hnew
    rw [hnone, Option.none_or, List.find?_cons_of_pos (by simp)]
    rfl
  · rw [if_neg hpath, List.find?_cons_of_neg (by simpa using Ne.symm hpath), List.find?_nil, Option.map_none,
      Option.or_none]
    rfl

theorem sound_insert (hs : Sound db) (accountId : ℕ) (args : CompanyArgs)
    (hnew : db.companyId? args.mandatePath = none) : Sound (db.insertCompany accountId args).2 where
  below row hmem := by
    rcases List.mem_append.mp hmem with hold | hlast
    · exact Nat.lt_succ_of_lt (hs.below row hold)
    · rw [List.mem_singleton.mp hlast]
      exact Nat.lt_succ_self _
  ids := by
    rw [Database.insertCompany]
    dsimp only
    rw [List.map_append, List.map_singleton]
    refine List.nodup_append.mpr ⟨hs.ids, List.nodup_singleton _, fun id hid id' hid' => ?_⟩
    obtain ⟨row, hmem, rfl⟩ := List.mem_map.mp hid
    rw [List.mem_singleton.mp hid']
    exact Nat.ne_of_lt (hs.below row hmem)
  paths := by
    rw [Database.insertCompany]
    dsimp only
    rw [List.map_append, List.map_singleton]
    refine List.nodup_append.mpr ⟨hs.paths, List.nodup_singleton _, fun path hpath path' hpath' => ?_⟩
    obtain ⟨row, hmem, rfl⟩ := List.mem_map.mp hpath
    rw [List.mem_singleton.mp hpath']
    intro heq
    have hsome : db.companyId? args.mandatePath = some row.id := (companyId_eq_some hs).mpr ⟨row, hmem, heq, rfl⟩
    cases hnew.symm.trans hsome

theorem sound_delete (hs : Sound db) (companyId : ℕ) : Sound (db.deleteCompanyRow companyId) where
  below row hmem := hs.below row (List.mem_of_mem_filter hmem)
  ids := hs.ids.sublist (List.filter_sublist.map _)
  paths := hs.paths.sublist (List.filter_sublist.map _)

/-- **A company is deleted.** -/
theorem rowId_delete (hs : Sound db) (hrow : db.companyId? mandatePath = some companyId) (path : String) :
    (db.deleteCompanyRow companyId).companyId? path =
      if path = mandatePath then none else db.companyId? path := by
  obtain ⟨row, hmem, hpath, hid⟩ := (companyId_eq_some hs).mp hrow
  ext id
  rw [companyId_eq_some (sound_delete hs companyId)]
  constructor
  · rintro ⟨other, hother, rfl, rfl⟩
    obtain ⟨hold, hne⟩ := List.mem_filter.mp hother
    rw [if_neg]
    · exact (companyId_eq_some hs).mpr ⟨other, hold, rfl, rfl⟩
    · intro heq
      obtain rfl : other = row := List.inj_on_of_nodup_map hs.paths hold hmem (heq.trans hpath.symm)
      exact of_decide_eq_true hne hid
  · intro hsome
    split at hsome
    · cases hsome
    · next hne =>
      obtain ⟨other, hother, rfl, rfl⟩ := (companyId_eq_some hs).mp hsome
      refine ⟨other, List.mem_filter.mpr ⟨hother, decide_eq_true fun hsame => hne ?_⟩, rfl, rfl⟩
      obtain rfl : other = row := List.inj_on_of_nodup_map hs.ids hother hmem (hsame.trans hid.symm)
      exact hpath

/-- Accounts do not matter for the companies. -/
theorem sound_account (hs : Sound db) (firebaseUid : String) : Sound (db.account firebaseUid).2 := by
  unfold Database.account
  split
  · exact hs
  · exact ⟨fun row hmem => Nat.lt_succ_of_lt (hs.below row hmem), hs.ids, hs.paths⟩

theorem companyId_account (firebaseUid : String) (path : String) :
    (db.account firebaseUid).2.companyId? path = db.companyId? path := by
  unfold Database.account
  split <;> rfl

end Table

/-! ### One call -/

section Step

variable {p : Process}

/-- The tables are sound, and the HR manager's cache agrees with them. -/
structure Kept (p : Process) : Prop where
  sound : Sound p.db
  hr : Agrees p.db p.hr

/-- What `get_or_create_company` does when it finds no company. -/
theorem getOrCreateCompany_of_none {args : CompanyArgs} (h : (lookup p.db p.hr args.mandatePath).1 = none) :
    ∃ accountId, (getOrCreateCompany p args).2 =
      { p with
        db := ((p.db.account args.accountFirebaseUid).2.insertCompany accountId args).2
        hr := (lookup p.db p.hr args.mandatePath).2.set args.mandatePath
          (p.db.account args.accountFirebaseUid).2.drawn }
      := by
  refine ⟨(p.db.account args.accountFirebaseUid).1.id, ?_⟩
  rw [getOrCreateCompany, NeonHRManager.getCompanyIdFromMandatePath]
  dsimp only
  rw [h]
  rfl

/-- And when it finds one. -/
theorem getOrCreateCompany_of_some {args : CompanyArgs} {companyId : ℕ}
    (h : (lookup p.db p.hr args.mandatePath).1 = some companyId) :
    (getOrCreateCompany p args).2 = { p with hr := (lookup p.db p.hr args.mandatePath).2 } := by
  rw [getOrCreateCompany, NeonHRManager.getCompanyIdFromMandatePath]
  dsimp only
  rw [h]

/-- What `delete_company` does to the rows and the caches. -/
theorem deleteCompany_of_some {mandatePath : String} {companyId : ℕ} (cascade : Bool)
    (h : (lookup p.db p.hr mandatePath).1 = some companyId) :
    ∃ db, (deleteCompany p mandatePath cascade none).2 =
        { p with db := db, hr := (lookup p.db p.hr mandatePath).2.erase mandatePath } ∧
      db.companies = (p.db.deleteCompanyRow companyId).companies ∧ db.drawn = p.db.drawn := by
  rw [deleteCompany, NeonHRManager.getCompanyIdFromMandatePath]
  dsimp only
  rw [h]
  cases cascade with
  | true => exact ⟨_, rfl, rfl, rfl⟩
  | false => exact ⟨_, rfl, rfl, rfl⟩

/-- When it finds no company, or its transaction fails, it is a lookup. -/
theorem deleteCompany_of_not {mandatePath : String} (cascade : Bool) {error : Option String}
    (h : (lookup p.db p.hr mandatePath).1 = none ∨ error ≠ none) :
    (deleteCompany p mandatePath cascade error).2 = { p with hr := (lookup p.db p.hr mandatePath).2 } := by
  rw [deleteCompany, NeonHRManager.getCompanyIdFromMandatePath]
  dsimp only
  cases hfound : (lookup p.db p.hr mandatePath).1 with
  | none => rfl
  | some companyId =>
      cases error with
      | none =>
          rcases h with hnone | hne
          · cases hfound.symm.trans hnone
          · exact absurd rfl hne
      | some error => rfl

/-- What a row of the table says depends on the companies alone. -/
theorem companyId_congr {db db' : Database} (h : db.companies = db'.companies) (path : String) :
    db.companyId? path = db'.companyId? path := by
  rw [Database.companyId?, h, Database.companyId?]

theorem sound_congr {db db' : Database} (hs : Sound db') (h : db.companies = db'.companies)
    (hdrawn : db.drawn = db'.drawn) : Sound db where
  below row hmem := by
    rw [hdrawn]
    exact hs.below row (h ▸ hmem)
  ids := h ▸ hs.ids
  paths := h ▸ hs.paths

/-- A company is created: what agreed with the table still does, and the new row may be added. -/
theorem agrees_insert {cache : Dict String ℕ} (h : Agrees p.db cache) {args : CompanyArgs}
    (hnew : p.db.companyId? args.mandatePath = none) {db : Database} {companyId : ℕ}
    (hrow : ∀ path, db.companyId? path =
      if path = args.mandatePath then some companyId else p.db.companyId? path) :
    Agrees db cache ∧ Agrees db (cache.set args.mandatePath companyId) := by
  have hold : Agrees db cache := by
    intro path id hcached
    have hsome : p.db.companyId? path = some id := h path id hcached
    rw [hrow, if_neg]
    · exact hsome
    · rintro rfl
      cases hnew.symm.trans hsome
  refine ⟨hold, fun path id hcached => ?_⟩
  rw [Dict.get?_set] at hcached
  split at hcached
  · next heq =>
    cases hcached
    rw [hrow, if_pos heq]
  · exact hold path id hcached

/-- A company is deleted: what agrees with the table afterwards has forgotten it. -/
theorem agrees_delete {cache : Dict String ℕ} (h : Agrees p.db cache) {mandatePath : String} {db : Database}
    (hrow : ∀ path, db.companyId? path = if path = mandatePath then none else p.db.companyId? path) :
    Agrees db cache ↔ mandatePath ∉ cache.keys := by
  rw [← Dict.get?_eq_none_iff]
  constructor
  · intro hagrees
    by_contra hcached
    obtain ⟨id, hid⟩ := Option.ne_none_iff_exists'.mp hcached
    have hsome : db.companyId? mandatePath = some id := hagrees mandatePath id hid
    rw [hrow, if_pos rfl] at hsome
    cases hsome
  · intro hnone path id hcached
    rw [hrow, if_neg]
    · exact h path id hcached
    · rintro rfl
      cases hnone.symm.trans hcached

/-- The row that is deleted, and the tables afterwards. -/
theorem deleted_cases (h : Kept p) {mandatePath : String} {companyId : ℕ} (cascade : Bool)
    (hfound : (lookup p.db p.hr mandatePath).1 = some companyId) :
    ∃ db, (deleteCompany p mandatePath cascade none).2 =
        { p with db := db, hr := (lookup p.db p.hr mandatePath).2.erase mandatePath } ∧
      Sound db ∧ ∀ path, db.companyId? path = if path = mandatePath then none else p.db.companyId? path := by
  have hrow : p.db.companyId? mandatePath = some companyId := (lookup_eq_iff.mpr h.hr mandatePath) ▸ hfound
  obtain ⟨db, hstep, hcompanies, hdrawn⟩ := deleteCompany_of_some cascade hfound
  refine ⟨db, hstep, sound_congr (sound_delete h.sound companyId) hcompanies hdrawn, fun path => ?_⟩
  rw [companyId_congr hcompanies, rowId_delete h.sound hrow]

/-- The tables after a company is created. -/
theorem created_cases (h : Kept p) {args : CompanyArgs} (hfound : (lookup p.db p.hr args.mandatePath).1 = none) :
    ∃ db companyId, (getOrCreateCompany p args).2 =
        { p with db := db, hr := (lookup p.db p.hr args.mandatePath).2.set args.mandatePath companyId } ∧
      Sound db ∧ ∀ path, db.companyId? path =
        if path = args.mandatePath then some companyId else p.db.companyId? path := by
  have hnew : p.db.companyId? args.mandatePath = none := (lookup_eq_iff.mpr h.hr args.mandatePath) ▸ hfound
  obtain ⟨accountId, hstep⟩ := getOrCreateCompany_of_none hfound
  have hnew' : (p.db.account args.accountFirebaseUid).2.companyId? args.mandatePath = none := by
    rw [companyId_account]
    exact hnew
  refine ⟨_, _, hstep, sound_insert (sound_account h.sound _) accountId args hnew', fun path => ?_⟩
  rw [rowId_insert accountId args hnew', companyId_account]

/-- **The HR manager's cache** agrees with the table after every call. -/
theorem kept_step (h : Kept p) (op : Op) : Kept (step p op) := by
  cases op with
  | getOrCreate args =>
      rw [step]
      cases hfound : (lookup p.db p.hr args.mandatePath).1 with
      | none =>
          have hnew : p.db.companyId? args.mandatePath = none := (lookup_eq_iff.mpr h.hr args.mandatePath) ▸ hfound
          obtain ⟨db, companyId, hstep, hsound, hrow⟩ := created_cases h hfound
          rw [hstep]
          exact ⟨hsound, (agrees_insert (agrees_lookup h.hr args.mandatePath) hnew hrow).2⟩
      | some companyId =>
          rw [getOrCreateCompany_of_some hfound]
          exact ⟨h.sound, agrees_lookup h.hr args.mandatePath⟩
  | delete mandatePath cascade error =>
      rw [step]
      by_cases hnot : (lookup p.db p.hr mandatePath).1 = none ∨ error ≠ none
      · rw [deleteCompany_of_not cascade hnot]
        exact ⟨h.sound, agrees_lookup h.hr mandatePath⟩
      · obtain ⟨hsome, herror⟩ := not_or.mp hnot
        obtain rfl := not_not.mp herror
        obtain ⟨companyId, hfound⟩ := Option.ne_none_iff_exists'.mp hsome
        obtain ⟨db, hstep, hsound, hrow⟩ := deleted_cases h cascade hfound
        rw [hstep]
        refine ⟨hsound, fun path id hcached => ?_⟩
        rw [Dict.get?_erase] at hcached
        split at hcached
        · cases hcached
        · next hne =>
          rw [hrow, if_neg hne]
          exact agrees_lookup h.hr mandatePath path id hcached
  | hrLookup mandatePath => exact ⟨h.sound, agrees_lookup h.hr mandatePath⟩
  | accountingLookup mandatePath => exact ⟨h.sound, h.hr⟩

/-- **The other manager's cache** agrees with it exactly when it has not found the company that is deleted. -/
theorem accounting_step (h : Kept p) (haccounting : Agrees p.db p.accounting) (op : Op) :
    Agrees (step p op).db (step p op).accounting ↔ KeepsFresh p op := by
  cases op with
  | getOrCreate args =>
      refine iff_of_true ?_ trivial
      rw [step]
      cases hfound : (lookup p.db p.hr args.mandatePath).1 with
      | none =>
          have hnew : p.db.companyId? args.mandatePath = none := (lookup_eq_iff.mpr h.hr args.mandatePath) ▸ hfound
          obtain ⟨db, companyId, hstep, -, hrow⟩ := created_cases h hfound
          rw [hstep]
          exact (agrees_insert haccounting hnew hrow).1
      | some companyId =>
          rw [getOrCreateCompany_of_some hfound]
          exact haccounting
  | delete mandatePath cascade error =>
      rw [step]
      cases error with
      | some error =>
          rw [deleteCompany_of_not cascade (.inr (Option.some_ne_none error))]
          exact iff_of_true haccounting trivial
      | none =>
          cases hfound : (lookup p.db p.hr mandatePath).1 with
          | none =>
              rw [deleteCompany_of_not cascade (.inl hfound)]
              -- there is no such row, so the cache cannot have it
              have hrow : p.db.companyId? mandatePath = none := (lookup_eq_iff.mpr h.hr mandatePath) ▸ hfound
              refine iff_of_true haccounting (Dict.get?_eq_none_iff.mp ?_)
              by_contra hcached
              obtain ⟨id, hid⟩ := Option.ne_none_iff_exists'.mp hcached
              cases hrow.symm.trans (haccounting mandatePath id hid)
          | some companyId =>
              obtain ⟨db, hstep, -, hrow⟩ := deleted_cases h cascade hfound
              rw [hstep]
              exact agrees_delete haccounting hrow
  | hrLookup mandatePath => exact iff_of_true haccounting trivial
  | accountingLookup mandatePath => exact iff_of_true (agrees_lookup haccounting mandatePath) trivial

end Step

theorem kept_start : Kept start where
  sound := ⟨fun row hmem => absurd hmem (List.not_mem_nil), List.nodup_nil, List.nodup_nil⟩
  hr path id hcached := by cases hcached

/-- **No lookup is stale**, at any point of a sequence, exactly when no company is deleted that the ledger's manager has
found. -/
theorem lookups_fresh_iff (ops : List Op) :
    (∀ pre, pre <+: ops → LookupsFresh (run step start pre)) ↔ Guarded step KeepsFresh start ops := by
  apply forall_prefix_iff_guarded_of_invariant fun p => Kept p ∧ Agrees p.db p.accounting
  · refine ⟨kept_start, fun path id hcached => ?_⟩
    cases hcached
  · exact fun p h => lookupsFresh_iff.mpr ⟨h.1.hr, h.2⟩
  · exact fun p op h hkeeps => ⟨kept_step h.1 op, (accounting_step h.1 h.2 op).mpr hkeeps⟩
  · exact fun p op h hfresh => (accounting_step h.1 h.2 op).mp (lookupsFresh_iff.mp hfresh).2

/-- The ledger's manager has found a company that is deleted and created again: it answers with the old id. -/
theorem recreated_company_is_missed :
    let args : CompanyArgs := ⟨"u", "clients/u/bo_clients/c/mandates/m", "Hotel", "CH", none, none, none⟩
    let p := run step start
      [.getOrCreate args, .accountingLookup args.mandatePath, .delete args.mandatePath true none, .getOrCreate args]
    (NeonAccountingManager.getCompanyIdFromMandatePath p args.mandatePath).1 = some 1 ∧
      p.db.companyId? args.mandatePath = some 2 := by
  decide

end Pinnokio.Tenancy.CompanyCaches
