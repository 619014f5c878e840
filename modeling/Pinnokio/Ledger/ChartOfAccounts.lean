import Pinnokio.Lib.Json
import Pinnokio.Lib.Runs
import Pinnokio.Lib.Tables
import Pinnokio.Lib.Text

/-!
# The chart of accounts

The accounts of a company are brought from the ERP into `core.chart_of_accounts`, one upsert for each.  The upsert
leaves the row as it is when its hash is that of the account; the hash is over six fields, without the id and the source
of the account.  Accounts that the ERP has deleted are then deactivated by a second statement, which leaves the hash.
The table here is the part of one company, by `account_number`.

* `get?_afterCall` — the row of each account of a call afterwards;
* `latest_values_iff` — **the table has the latest values** exactly when the row of every account whose upsert is
  skipped is of the same id and source, was not deactivated since, and has the six fields;
* `skipsUnchanged_iff_of_separated` — among accounts without the separator of the hashed text the fields need not be
  asked for.
-/

namespace Pinnokio.Ledger.ChartOfAccounts

open Pinnokio.Runs

/-! ### Accounts -/

/-- What an account is stored from. -/
structure Account where
  accountNumber : String
  accountName : String
  erpAccountType : String
  accountNature : Option String
  accountFunction : Option String
  erpAccountId : String
  isActive : Bool
  deriving DecidableEq

/-- A parameter of a text column: the driver refuses a value that is not a text. -/
def textParameter : Scalar → Option String
  | .str s => some s
  | _ => none

/-- `value or None`, as a parameter of a text column. -/
def nullableParameter (v : Scalar) : Option (Option String) :=
  if v.truthy then (textParameter v).map some else some none

/-- `acc.get("account_number") or acc.get("code") or acc_id`. -/
def numberOf (accId : String) (acc : Fields) : String :=
  ((acc.get "account_number").or ((acc.get "code").or (.str accId))).toStr

/-- The account that an entry of the map stands for; `none` if the driver refuses one of its values. -/
def accountOf (accId : String) (acc : Fields) : Option Account :=
  match textParameter (((acc.get "account_name").or (acc.get "display_name")).or (.str "")),
      textParameter ((acc.get "account_type").or (.str "")),
      nullableParameter (acc.get "klk_account_nature"), nullableParameter (acc.get "klk_account_function") with
  | some accountName, some erpAccountType, some accountNature, some accountFunction =>
      some ⟨numberOf accId acc, accountName, erpAccountType, accountNature, accountFunction, accId,
        !(acc.getD "deprecated" (.bool false)).truthy⟩
  | _, _, _, _ => none

/-- `f"{value}"`. -/
def shown : Option String → String
  | none => "None"
  | some s => s

/-- `hash_input`. -/
def Account.hashInput (a : Account) : String :=
  a.accountNumber ++ ("|" ++ (a.accountName ++ ("|" ++ (a.erpAccountType ++ ("|" ++ (shown a.accountNature ++ ("|" ++
    (shown a.accountFunction ++ ("|" ++ (Scalar.bool a.isActive).toStr)))))))))

/-! ### The table -/

/-- A row of `core.chart_of_accounts`. -/
structure CoaRow where
  accountName : String
  erpAccountType : Option String
  accountNature : Option String
  accountFunction : Option String
  erpAccountId : Option String
  isActive : Bool
  syncHash : Option String
  erpSource : Option String
  deriving DecidableEq

/-- The rows of a company, by `account_number`. -/
abbrev CoaTable := Dict String CoaRow

/-- The row of `sync_metadata`. -/
structure SyncMetadata where
  totalEntries : ℕ
  activeEntries : ℕ
  datasetVersion : ℕ
  source : String
  upserted : ℕ
  deactivated : ℕ
  deriving DecidableEq

/-- The tables that a call writes. -/
structure Coa where
  table : CoaTable
  metadata : Option SyncMetadata

/-- The counters of a call. -/
structure Counters where
  upserted : ℕ
  deactivated : ℕ
  activeCount : ℕ
  enrichedCount : ℕ
  deriving DecidableEq

/-- The source is written into the statement between quotes. -/
structure ErpSource where
  text : String
  noQuote : Char.ofNat 0x27 ∉ text.toList

section Statements

/- SHA-256, as a hexadecimal text. -/
variable (hash : String → String)

/-- The row that is inserted. -/
def insertedRow (source : ErpSource) (a : Account) : CoaRow where
  accountName := a.accountName
  erpAccountType := some a.erpAccountType
  accountNature := a.accountNature
  accountFunction := a.accountFunction
  erpAccountId := some a.erpAccountId
  isActive := a.isActive
  syncHash := some (hash a.hashInput)
  erpSource := some source.text

/-- `DO UPDATE SET … WHERE sync_hash IS DISTINCT FROM EXCLUDED.sync_hash`. -/
def updatedRow (source : ErpSource) (a : Account) (row : CoaRow) : CoaRow :=
  if row.syncHash = some (hash a.hashInput) then row
  else { insertedRow hash source a with
    accountNature := a.accountNature.or row.accountNature
    accountFunction := a.accountFunction.or row.accountFunction }

/-- The upsert of one account. -/
def upsertAccount (source : ErpSource) (t : CoaTable) (a : Account) : CoaTable :=
  t.upsert a.accountNumber (insertedRow hash source a) (updatedRow hash source a)

/-- The counters after one more account. -/
def Counters.addAccount (n : Counters) (a : Account) : Counters where
  upserted := n.upserted + 1
  deactivated := n.deactivated
  activeCount := n.activeCount + if a.isActive then 1 else 0
  enrichedCount := n.enrichedCount + if a.isActive ∧ (a.accountNature.getD "" ≠ "") then 1 else 0

/-- The loop over the map; values that are not maps are skipped, and `none` is the exception of a refused value. -/
def upsertAccounts (source : ErpSource) : CoaTable → Counters → List (String × Option Fields) →
    CoaTable × Option Counters
  | t, n, [] => (t, some n)
  | t, n, (_, none) :: es => upsertAccounts source t n es
  | t, n, (accId, some acc) :: es =>
      match accountOf accId acc with
      | none => (t, none)
      | some a => upsertAccounts source (upsertAccount hash source t a) (n.addAccount a) es

/-- `SET is_active = FALSE WHERE erp_account_id = $2`. -/
def deactivate (t : CoaTable) (erpAccountId : String) : CoaTable :=
  t.mapValues fun row => if row.erpAccountId = some erpAccountId then { row with isActive := false } else row

/-- The upsert of the row of `sync_metadata`. -/
def SyncMetadata.update (old : Option SyncMetadata) (source : ErpSource) (n : Counters) : SyncMetadata where
  totalEntries := n.activeCount
  activeEntries := n.enrichedCount
  datasetVersion := match old with
    | none => 1
    | some m => m.datasetVersion + 1
  source := source.text
  upserted := n.upserted
  deactivated := n.deactivated

/-- `upsert_coa_from_firebase`; the result is `none` when it fails. -/
def upsertCoaFromFirebase (s : Coa) (coaData : Dict String (Option Fields)) (deletedErpIds : List String)
    (source : ErpSource) : Coa × Option Counters :=
  match upsertAccounts hash source s.table ⟨0, 0, 0, 0⟩ coaData.entries with
  | (t, none) => ({ s with table := t }, none)
  | (t, some n) =>
      let n := { n with deactivated := deletedErpIds.length }
      let t := deletedErpIds.foldl deactivate t
      if n.upserted = 0 ∧ n.deactivated = 0 then (⟨t, s.metadata⟩, some n)
      else (⟨t, some (SyncMetadata.update s.metadata source n)⟩, some n)

/-! ### Successful calls -/

/-- The accounts of a map; `none` if a value is refused. -/
def accountsOf : List (String × Option Fields) → Option (List Account)
  | [] => some []
  | (_, none) :: es => accountsOf es
  | (accId, some acc) :: es =>
      match accountOf accId acc, accountsOf es with
      | some a, some as => some (a :: as)
      | _, _ => none

/-- The arguments of a call that succeeds, with distinct account numbers. -/
structure CoaCall where
  coaData : Dict String (Option Fields)
  deletedErpIds : List String
  source : ErpSource
  accounts : List Account
  accepted : accountsOf coaData.entries = some accounts
  distinct : (accounts.map Account.accountNumber).Nodup

/-- One call. -/
def step (s : Coa) (c : CoaCall) : Coa := (upsertCoaFromFirebase hash s c.coaData c.deletedErpIds c.source).1

/-- The row has the values of the account; an empty nature or function may be an older one. -/
structure Shows (source : ErpSource) (a : Account) (row : CoaRow) : Prop where
  accountName : row.accountName = a.accountName
  erpAccountType : row.erpAccountType = some a.erpAccountType
  erpAccountId : row.erpAccountId = some a.erpAccountId
  erpSource : row.erpSource = some source.text
  isActive : row.isActive = a.isActive
  accountNature : a.accountNature ≠ none → row.accountNature = a.accountNature
  accountFunction : a.accountFunction ≠ none → row.accountFunction = a.accountFunction

/-- Every account of the call that it does not name as deleted is in the table with the values of the call. -/
def Latest (s : Coa) (c : CoaCall) : Prop :=
  ∀ a ∈ c.accounts, a.erpAccountId ∉ c.deletedErpIds →
    ∃ row, s.table.get? a.accountNumber = some row ∧ Shows c.source a row

/-- The row was hashed from the fields of the account. -/
structure SameFields (a : Account) (row : CoaRow) : Prop where
  accountName : row.accountName = a.accountName
  erpAccountType : row.erpAccountType = some a.erpAccountType
  accountNature : a.accountNature ≠ none → row.accountNature = a.accountNature
  accountFunction : a.accountFunction ≠ none → row.accountFunction = a.accountFunction

/-- Nothing but the hashed fields has changed since the row was written: the ERP has the account under the same id, it
comes from the same source, and the row was not deactivated. -/
structure Unchanged (source : ErpSource) (a : Account) (row : CoaRow) : Prop where
  erpAccountId : row.erpAccountId = some a.erpAccountId
  erpSource : row.erpSource = some source.text
  isActive : row.isActive = a.isActive

/-- The row of every account whose upsert is skipped is as the account has it. -/
def SkipsUnchanged (s : Coa) (c : CoaCall) : Prop :=
  ∀ a ∈ c.accounts, a.erpAccountId ∉ c.deletedErpIds → ∀ row, s.table.get? a.accountNumber = some row →
    row.syncHash = some (hash a.hashInput) → Unchanged c.source a row ∧ SameFields a row

end Statements

/-! ### What a call leaves in the table -/

section Reading

variable {hash : String → String}

/-- The row after the deactivation of the ids. -/
def deactivated (ids : List String) (row : CoaRow) : CoaRow :=
  if ∃ id ∈ ids, row.erpAccountId = some id then { row with isActive := false } else row

theorem get?_foldl_deactivate (t : CoaTable) (ids : List String) (k : String) :
    (ids.foldl deactivate t).get? k = (t.get? k).map (deactivated ids) := by
  induction ids generalizing t with
  | nil =>
      have hid : deactivated [] = id := by
        funext row
        simp [deactivated]
      rw [hid, Option.map_id]
      rfl
  | cons x ids ih =>
      rw [List.foldl_cons, ih, deactivate, Dict.get?_mapValues, Option.map_map]
      congr 1
      funext row
      by_cases hx : row.erpAccountId = some x <;> simp [deactivated, hx]

theorem deactivated_of_not_mem {ids : List String} {row : CoaRow} {id : String} (hrow : row.erpAccountId = some id)
    (hid : id ∉ ids) : deactivated ids row = row := by
  refine if_neg fun h => ?_
  obtain ⟨x, hx, heq⟩ := h
  rw [hrow, Option.some.injEq] at heq
  exact hid (heq ▸ hx)

/-- The deactivation changes `is_active` only. -/
theorem erpAccountId_deactivated (ids : List String) (row : CoaRow) :
    (deactivated ids row).erpAccountId = row.erpAccountId := by
  unfold deactivated
  split <;> rfl

/-- The loop is one upsert after another, of the accounts of the map. -/
theorem upsertAccounts_of_accepted (source : ErpSource) (t : CoaTable) (n : Counters)
    (es : List (String × Option Fields)) {as : List Account} (h : accountsOf es = some as) :
    upsertAccounts hash source t n es =
      (Dict.upsertAll Account.accountNumber (insertedRow hash source) (updatedRow hash source) t as,
        some (as.foldl Counters.addAccount n)) := by
  induction es generalizing t n as with
  | nil =>
      cases h
      rfl
  | cons e es ih =>
      obtain ⟨accId, acc⟩ := e
      cases acc with
      | none =>
          rw [upsertAccounts]
          exact ih t n h
      | some acc =>
          rw [accountsOf] at h
          split at h
          · next a rest ha hrest =>
            cases h
            rw [upsertAccounts, ha]
            exact ih _ _ hrest
          · cases h

/-- The table after a call that succeeds. -/
theorem table_step (s : Coa) (c : CoaCall) :
    (step hash s c).table = c.deletedErpIds.foldl deactivate
      (Dict.upsertAll Account.accountNumber (insertedRow hash c.source) (updatedRow hash c.source) s.table
        c.accounts) := by
  rw [step, upsertCoaFromFirebase, upsertAccounts_of_accepted c.source s.table _ _ c.accepted]
  dsimp only
  split <;> rfl

/-- A call with accepted arguments succeeds. -/
theorem succeeds (s : Coa) (c : CoaCall) :
    (upsertCoaFromFirebase hash s c.coaData c.deletedErpIds c.source).2.isSome = true := by
  rw [upsertCoaFromFirebase, upsertAccounts_of_accepted c.source s.table _ _ c.accepted]
  dsimp only
  split <;> rfl

/-- **The row of an account after a call that gives it**. -/
theorem get?_afterCall (s : Coa) (c : CoaCall) {a : Account} (ha : a ∈ c.accounts) :
    (step hash s c).table.get? a.accountNumber = some (deactivated c.deletedErpIds
      (s.table.upserted a.accountNumber (insertedRow hash c.source a) (updatedRow hash c.source a))) := by
  rw [table_step, get?_foldl_deactivate, Dict.get?_upsertAll s.table c.distinct ha, Option.map_some]

theorem shows_insertedRow (source : ErpSource) (a : Account) : Shows source a (insertedRow hash source a) :=
  ⟨rfl, rfl, rfl, rfl, rfl, fun _ => rfl, fun _ => rfl⟩

/-- A row that is written has the values of the account. -/
theorem shows_updatedRow (source : ErpSource) {a : Account} {row : CoaRow}
    (h : row.syncHash ≠ some (hash a.hashInput)) : Shows source a (updatedRow hash source a row) := by
  rw [updatedRow, if_neg h]
  refine ⟨rfl, rfl, rfl, rfl, rfl, fun hnature => ?_, fun hfunction => ?_⟩
  · obtain ⟨n, hn⟩ := Option.ne_none_iff_exists'.mp hnature
    simp [hn]
  · obtain ⟨f, hf⟩ := Option.ne_none_iff_exists'.mp hfunction
    simp [hf]

theorem shows_iff {source : ErpSource} {a : Account} {row : CoaRow} :
    Shows source a row ↔ Unchanged source a row ∧ SameFields a row := by
  constructor
  · intro h
    exact ⟨⟨h.erpAccountId, h.erpSource, h.isActive⟩,
      ⟨h.accountName, h.erpAccountType, h.accountNature, h.accountFunction⟩⟩
  · intro h
    obtain ⟨hunchanged, hfields⟩ := h
    exact ⟨hfields.accountName, hfields.erpAccountType, hunchanged.erpAccountId, hunchanged.erpSource,
      hunchanged.isActive, hfields.accountNature, hfields.accountFunction⟩

/-- The deactivation of other ids matters only to rows of these ids. -/
theorem shows_deactivated_iff {source : ErpSource} {a : Account} {ids : List String} (hid : a.erpAccountId ∉ ids)
    (row : CoaRow) : Shows source a (deactivated ids row) ↔ Shows source a row := by
  constructor
  · intro h
    have hrow : row.erpAccountId = some a.erpAccountId := (erpAccountId_deactivated ids row).symm.trans h.erpAccountId
    rwa [deactivated_of_not_mem hrow hid] at h
  · intro h
    rwa [deactivated_of_not_mem h.erpAccountId hid]

/-- **One call** leaves the values it gives exactly when the upserts it skips have nothing to change. -/
theorem latest_step_iff (s : Coa) (c : CoaCall) : Latest (step hash s c) c ↔ SkipsUnchanged hash s c := by
  refine forall_congr' fun a => forall_congr' fun ha => forall_congr' fun hid => ?_
  simp only [get?_afterCall s c ha, Option.some.injEq, exists_eq_left', shows_deactivated_iff hid]
  cases hrow : s.table.get? a.accountNumber with
  | none =>
      rw [Dict.upserted_of_none hrow]
      exact iff_of_true (shows_insertedRow c.source a) (by simp)
  | some row =>
      rw [Dict.upserted_of_some hrow]
      simp only [Option.some.injEq, forall_eq']
      by_cases hhash : row.syncHash = some (hash a.hashInput)
      · rw [updatedRow, if_pos hhash, shows_iff]
        exact ⟨fun h _ => h, fun h => h hhash⟩
      · exact iff_of_true (shows_updatedRow c.source hhash) fun h => absurd h hhash

end Reading

/-- The texts of the account can be told apart in the hashed text. -/
structure Separated (a : Account) : Prop where
  number : '|' ∉ a.accountNumber.toList
  name : '|' ∉ a.accountName.toList
  type : '|' ∉ a.erpAccountType.toList
  nature : ∀ s, a.accountNature = some s → '|' ∉ s.toList ∧ s ≠ "None"
  function : ∀ s, a.accountFunction = some s → '|' ∉ s.toList ∧ s ≠ "None"

section Separators

variable {hash : String → String}

theorem not_mem_shown {v : Option String} (h : ∀ s, v = some s → '|' ∉ s.toList ∧ s ≠ "None") :
    '|' ∉ (shown v).toList := by
  cases v with
  | none => decide
  | some s => exact (h s rfl).1

theorem eq_of_shown_eq {v w : Option String} (hv : ∀ s, v = some s → '|' ∉ s.toList ∧ s ≠ "None")
    (hw : ∀ s, w = some s → '|' ∉ s.toList ∧ s ≠ "None") (h : shown v = shown w) : v = w := by
  cases v with
  | none =>
      cases w with
      | none => rfl
      | some t => exact absurd h.symm (hw t rfl).2
  | some s =>
      cases w with
      | none => exact absurd h (hv s rfl).2
      | some t => exact congrArg some h

/-- The hashed text determines the hashed fields. -/
theorem Separated.hashInput_inj {a a' : Account} (ha : Separated a) (ha' : Separated a')
    (h : a.hashInput = a'.hashInput) :
    a.accountName = a'.accountName ∧ a.erpAccountType = a'.erpAccountType ∧ a.accountNature = a'.accountNature ∧
      a.accountFunction = a'.accountFunction ∧ a.isActive = a'.isActive := by
  have hsep : "|".toList = ['|'] := by decide
  obtain ⟨-, h⟩ := Text.cut hsep ha.number ha'.number h
  obtain ⟨hname, h⟩ := Text.cut hsep ha.name ha'.name h
  obtain ⟨htype, h⟩ := Text.cut hsep ha.type ha'.type h
  obtain ⟨hnature, h⟩ := Text.cut hsep (not_mem_shown ha.nature) (not_mem_shown ha'.nature) h
  obtain ⟨hfunction, h⟩ := Text.cut hsep (not_mem_shown ha.function) (not_mem_shown ha'.function) h
  refine ⟨hname, htype, eq_of_shown_eq ha.nature ha'.nature hnature, eq_of_shown_eq ha.function ha'.function hfunction,
    ?_⟩
  cases hactive : a.isActive <;> cases hactive' : a'.isActive <;> simp [Scalar.toStr, hactive, hactive'] at h ⊢

/-- The row holds the hash of an account whose fields it has; it may have been deactivated since. -/
def HashedRow (hash : String → String) (row : CoaRow) : Prop :=
  ∃ a, Separated a ∧ row.syncHash = some (hash a.hashInput) ∧ SameFields a row ∧
    (row.isActive = true → a.isActive = true)

theorem Shows.sameFields {source : ErpSource} {a : Account} {row : CoaRow} (h : Shows source a row) :
    SameFields a row := (shows_iff.mp h).2

/-- An upsert keeps the rows hashed. -/
theorem hashedRow_upserted {t : CoaTable} {source : ErpSource} {a : Account} (ha : Separated a)
    (ht : ∀ k row, t.get? k = some row → HashedRow hash row) :
    HashedRow hash (t.upserted a.accountNumber (insertedRow hash source a) (updatedRow hash source a)) := by
  cases hrow : t.get? a.accountNumber with
  | none =>
      rw [Dict.upserted_of_none hrow]
      exact ⟨a, ha, rfl, (shows_insertedRow source a).sameFields, id⟩
  | some row =>
      rw [Dict.upserted_of_some hrow]
      by_cases hhash : row.syncHash = some (hash a.hashInput)
      · rw [updatedRow, if_pos hhash]
        exact ht _ _ hrow
      · refine ⟨a, ha, ?_, (shows_updatedRow source hhash).sameFields, fun hactive => ?_⟩
        · rw [updatedRow, if_neg hhash]
          rfl
        · rw [(shows_updatedRow source hhash).isActive] at hactive
          exact hactive

theorem hashedRow_deactivated {ids : List String} {row : CoaRow} (h : HashedRow hash row) :
    HashedRow hash (deactivated ids row) := by
  unfold deactivated
  split
  · obtain ⟨a, ha, hhash, hfields, -⟩ := h
    exact ⟨a, ha, hhash, ⟨hfields.1, hfields.2, hfields.3, hfields.4⟩, fun hactive => absurd hactive (by simp)⟩
  · exact h

/-- So does a call of separated accounts. -/
theorem hashedRow_step {s : Coa} (hs : ∀ k row, s.table.get? k = some row → HashedRow hash row) {c : CoaCall}
    (hc : ∀ a ∈ c.accounts, Separated a) (k : String) (row : CoaRow)
    (hrow : (step hash s c).table.get? k = some row) : HashedRow hash row := by
  rw [table_step, get?_foldl_deactivate] at hrow
  obtain ⟨row₀, hrow₀, rfl⟩ := Option.map_eq_some_iff.mp hrow
  refine hashedRow_deactivated ?_
  by_cases hk : k ∈ c.accounts.map Account.accountNumber
  · obtain ⟨a, ha, rfl⟩ := List.mem_map.mp hk
    rw [Dict.get?_upsertAll s.table c.distinct ha] at hrow₀
    cases hrow₀
    exact hashedRow_upserted (hc a ha) hs
  · rw [Dict.get?_upsertAll_other s.table hk] at hrow₀
    exact hs k row₀ hrow₀

theorem hashedRow_run {calls : List CoaCall} (hsep : ∀ c ∈ calls, ∀ a ∈ c.accounts, Separated a) (k : String)
    (row : CoaRow) (hrow : (run (step hash) ⟨∅, none⟩ calls).table.get? k = some row) : HashedRow hash row := by
  induction calls using List.reverseRecOn generalizing k row with
  | nil => cases hrow
  | append_singleton calls c ih =>
      rw [run_concat] at hrow
      refine hashedRow_step (fun k row => ih (fun c hc => hsep c (by simp [hc])) k row) ?_ k row hrow
      exact hsep c (by simp)

/-- In a chart of separated accounts a row with the hash of an account has its fields. -/
theorem sameFields_of_separated (hinj : Function.Injective hash) {calls : List CoaCall}
    (hsep : ∀ c ∈ calls, ∀ a ∈ c.accounts, Separated a) {a : Account} (ha : Separated a) {row : CoaRow}
    (hrow : (run (step hash) ⟨∅, none⟩ calls).table.get? a.accountNumber = some row)
    (hhash : row.syncHash = some (hash a.hashInput)) :
    SameFields a row ∧ (row.isActive = true → a.isActive = true) := by
  obtain ⟨a', ha', hhash', hfields, hactive⟩ := hashedRow_run hsep _ row hrow
  have htext : a.hashInput = a'.hashInput := hinj (Option.some.inj (hhash.symm.trans hhash'))
  obtain ⟨hname, htype, hnature, hfunction, hact⟩ := ha.hashInput_inj ha' htext
  refine ⟨⟨?_, ?_, ?_, ?_⟩, ?_⟩
  · rw [hname]
    exact hfields.accountName
  · rw [htype]
    exact hfields.erpAccountType
  · rw [hnature]
    exact hfields.accountNature
  · rw [hfunction]
    exact hfields.accountFunction
  · rw [hact]
    exact hactive

/-- **Without the separator** the skipped upserts have nothing to change exactly when the ERP has the accounts under the
same id, they come from the same source, and none of them is active again after a deactivation. -/
theorem skipsUnchanged_iff_of_separated (hinj : Function.Injective hash) {calls : List CoaCall}
    (hsep : ∀ c ∈ calls, ∀ a ∈ c.accounts, Separated a) {c : CoaCall} (hc : ∀ a ∈ c.accounts, Separated a) :
    SkipsUnchanged hash (run (step hash) ⟨∅, none⟩ calls) c ↔
      ∀ a ∈ c.accounts, a.erpAccountId ∉ c.deletedErpIds → ∀ row,
        (run (step hash) ⟨∅, none⟩ calls).table.get? a.accountNumber = some row →
        row.syncHash = some (hash a.hashInput) →
        row.erpAccountId = some a.erpAccountId ∧ row.erpSource = some c.source.text ∧
          (a.isActive = true → row.isActive = true) := by
  refine forall_congr' fun a => forall_congr' fun ha => forall_congr' fun _ => forall_congr' fun row =>
    forall_congr' fun hrow => forall_congr' fun hhash => ?_
  obtain ⟨hfields, hactive⟩ := sameFields_of_separated hinj hsep (hc a ha) hrow hhash
  constructor
  · intro h
    exact ⟨h.1.erpAccountId, h.1.erpSource, fun hact => h.1.isActive.trans hact⟩
  · intro h
    obtain ⟨hid, hsource, hact⟩ := h
    exact ⟨⟨hid, hsource, Bool.eq_iff_iff.mpr ⟨hactive, hact⟩⟩, hfields⟩

end Separators

/-- The map with one account. -/
def oneAccount : Dict String (Option Fields) :=
  Dict.ofList [("7", some (Dict.ofList [("account_number", .str "1000"), ("account_name", .str "Cash")]))]

/-- The source of the ERP. -/
def erp : ErpSource := ⟨"erp", by decide⟩

/-- The account is given. -/
def given : CoaCall where
  coaData := oneAccount
  deletedErpIds := []
  source := erp
  accounts := [⟨"1000", "Cash", "", none, none, "7", true⟩]
  accepted := by decide
  distinct := by decide

/-- The account is deleted. -/
def deleted : CoaCall where
  coaData := ∅
  deletedErpIds := ["7"]
  source := erp
  accounts := []
  accepted := rfl
  distinct := List.nodup_nil

end Pinnokio.Ledger.ChartOfAccounts
