import Pinnokio.Lib.Documents
import Pinnokio.Lib.Popping
import Pinnokio.Matching.FxCache
import Pinnokio.Matching.SuggestionRuns
import Pinnokio.Realtime.BusinessCache

/-!
# The lists of bank transactions

The transactions that the ERP has not reconciled yet are crossed with the documents of the task manager.  A document
names its transaction in the data of its department, under one of three keys, and its status says which list the
transaction belongs to; each list takes its transactions out of the map of the ERP, and what is left is still to be
processed.

* `getBankerJobsFromTaskManager` — the documents by status, with the data under any of the keys;
* `organizedTransactions` — the crossing; the documents that are done are looked up under two of the keys only;
* `count_list` — how often an id of the ERP is in a list;
* `partitioned_iff` — **the lists partition the transactions of the ERP** exactly when the documents that are done are
  looked up and shown under the ids they are selected by;
* `filed_iff_of_single` — for documents with one key each: when none of them is done and under `Bankbookeeper`.
-/

namespace Pinnokio.Banking

open Pinnokio.Matching Pinnokio.Text
open Pinnokio.Realtime (Category)

/-! ### Documents of the task manager -/

/-- The keys of `department_data` for the banker. -/
inductive DepartmentKey where
  | bankbookeeper
  | banker
  | bankerCapitalized
  deriving DecidableEq

/-- The names of the department. -/
def bankerDepartments : List String := ["Bankbookeeper", "banker", "Banker"]

/-- The fields that are read of a document, of its department data, or of the item made of it.  A missing text is
empty, a missing scalar `none`; of three fields it counts whether they are there. -/
structure JobFields where
  transactionId : Option Scalar := none
  taskId : Option Scalar := none
  status : Option String := none
  batchId : String := ""
  bankAccountId : Scalar := .none
  bankAccount : String := ""
  txnAmount : ℚ := 0
  txnCurrency : String := ""
  transactionDate : String := ""
  reference : String := ""
  description : String := ""
  label : String := ""
  partnerName : String := ""
  paymentRef : String := ""
  stepLabel : String := ""
  currentStep : String := ""
  reconciliationDetails : Option Document := none
  resultCode : Scalar := .none

/-- A dictionary with fields of its own and those of the department; an empty map counts as missing. -/
structure Job where
  fields : JobFields
  departmentData : DepartmentKey → Option JobFields

/-- A document of the task manager. -/
structure BankerTask extends Job where
  id : String
  department : String
  mandatePath : String

/-- `department_data.get(k, {}) or department_data.get(k', {}) or …`. -/
def Job.under (job : Job) (keys : List DepartmentKey) : Option JobFields := keys.findSome? job.departmentData

/-- `str(v or "")`. -/
def textOf (v : Scalar) : String := (v.or (.str "")).toStr

/-- `fields.get("transaction_id")`. -/
def JobFields.txId (fields : JobFields) : Scalar := fields.transactionId.getD .none

section Jobs

/- `str.lower`. -/
variable (lower : String → String) (mandatePath : String)

/-- The list that a status selects; `none` if the document is in no list. -/
def categoryOf (status : String) : Option Category :=
  if status ∈ ["completed", "close", "closed"] then some .processed
  else if status = "pending" then some .pending
  else if status ∈ ["on_process", "processing", "in_progress", "in_queue", "running", "stopping"] then some .inProcess
  else none

/-- `data.get("status", "").lower()`. -/
def BankerTask.status (doc : BankerTask) : String := lower (doc.fields.status.getD "")

/-- The department data of a document of the mandate that is about a transaction. -/
def BankerTask.bankerData (doc : BankerTask) : Option JobFields :=
  if doc.department ∈ bankerDepartments ∧ doc.mandatePath = mandatePath then
    (doc.under [.bankbookeeper, .banker, .bankerCapitalized]).filter fun data => data.txId.truthy
  else none

/-- The item of an open document: the fields of its department data win. -/
def BankerTask.item (doc : BankerTask) (data : JobFields) : Job where
  fields := { data with
    transactionId := some data.txId
    taskId := some (data.taskId.getD (.str doc.id))
    status := some (data.status.getD (doc.status lower)) }
  departmentData _ := none

/-- What `get_banker_jobs_from_task_manager` returns. -/
structure BankerJobs where
  processed : List Job
  pending : List Job
  inProcess : Dict String (List Job)

/-- A document is put where its status says. -/
def addJob (jobs : BankerJobs) (doc : BankerTask) : BankerJobs :=
  match doc.bankerData mandatePath with
  | none => jobs
  | some data =>
      match categoryOf (doc.status lower) with
      | some .processed => { jobs with processed := jobs.processed ++ [doc.toJob] }
      | some .pending => { jobs with pending := jobs.pending ++ [doc.item lower data] }
      | some .inProcess =>
          let batchId := orElse data.batchId "unknown_batch"
          let items := (jobs.inProcess.get? batchId).getD []
          { jobs with inProcess := jobs.inProcess.set batchId (items ++ [doc.item lower data]) }
      | _ => jobs

/-- `get_banker_jobs_from_task_manager`. -/
def getBankerJobsFromTaskManager (docs : List BankerTask) : BankerJobs :=
  docs.foldl (addJob lower mandatePath) ⟨[], [], ∅⟩

end Jobs

/-! ### Transactions -/

/-- A transaction of the ERP.  A missing text is empty. -/
structure ErpTransaction where
  moveId : Scalar
  id : Scalar
  hasId : (moveId.or id).truthy = true
  amount : ℚ
  journalId : Scalar
  journalName : String
  date : String
  ref : String
  name : String
  paymentRef : String
  displayName : String
  partnerName : String
  currencyName : String

/-- `str(tx.get("move_id") or tx.get("id"))`. -/
def ErpTransaction.key (tx : ErpTransaction) : String := (tx.moveId.or tx.id).toStr

/-- A transaction of a list; the last five fields are not in all of them. -/
structure BankTransaction extends Tx where
  transactionId : String
  transactionType : String
  status : String
  createdAt : String
  updatedAt : String
  batchId : Option String := none
  currentStep : Option String := none
  jobId : Option Scalar := none
  reconciliationDetails : Option Document := none
  resultCode : Option Scalar := none

/-- `"credit" if amount >= 0 else "debit"`. -/
def transactionTypeOf (amount : ℚ) : String := if 0 ≤ amount then "credit" else "debit"

/-- `_normalize_from_erp`. -/
def normalizeFromErp (erpTx : ErpTransaction) : BankTransaction where
  id := textOf (erpTx.moveId.or erpTx.id)
  transactionId := textOf (erpTx.moveId.or erpTx.id)
  accountId := some (.str (textOf erpTx.journalId))
  accountName := some erpTx.journalName
  journalId := none
  journalName := none
  date := erpTx.date
  reference := orElse erpTx.ref erpTx.name
  description := orElse erpTx.paymentRef erpTx.displayName
  partnerName := erpTx.partnerName
  paymentRef := erpTx.paymentRef
  amount := erpTx.amount
  currency := orElse erpTx.currencyName "CHF"
  matchSuggestions := none
  transactionType := transactionTypeOf erpTx.amount
  status := "to_process"
  createdAt := erpTx.date
  updatedAt := erpTx.date

/-- Where `_normalize_from_task_manager` reads: the item, if it has the key `transaction_id`, else its department
data. -/
def Job.shownData (item : Job) : JobFields :=
  if item.fields.transactionId.isSome then item.fields
  else (item.under [.bankbookeeper, .banker, .bankerCapitalized]).getD {}

/-- `item.get("task_id", "")`. -/
def Job.taskId (item : Job) : Scalar := item.fields.taskId.getD (.str "")

/-- The id that an item is shown under. -/
def Job.shownId (item : Job) : String := (item.shownData.txId.or item.taskId).toStr

/-- `_normalize_from_task_manager`. -/
def normalizeFromTaskManager (item : Job) (erpTx : Option ErpTransaction) (status : String) : BankTransaction :=
  let banker := item.shownData
  let base : BankTransaction :=
    match erpTx with
    | some tx =>
        { id := item.shownId
          transactionId := item.shownId
          accountId := some (.str (textOf (banker.bankAccountId.or tx.journalId)))
          accountName := some (orElse tx.journalName banker.bankAccount)
          journalId := none
          journalName := none
          date := tx.date
          reference := orElse tx.ref tx.name
          description := orElse tx.paymentRef tx.displayName
          partnerName := tx.partnerName
          paymentRef := tx.paymentRef
          amount := tx.amount
          currency := orElse tx.currencyName (orElse banker.txnCurrency "CHF")
          matchSuggestions := none
          transactionType := transactionTypeOf tx.amount
          status := item.fields.status.getD status
          batchId := some banker.batchId
          currentStep := some (orElse banker.stepLabel item.fields.currentStep)
          jobId := some item.taskId
          createdAt := tx.date
          updatedAt := tx.date }
    | none =>
        { id := item.shownId
          transactionId := item.shownId
          accountId := some (.str (textOf banker.bankAccountId))
          accountName := some banker.bankAccount
          journalId := none
          journalName := none
          date := banker.transactionDate
          reference := banker.reference
          description := orElse banker.description banker.label
          partnerName := banker.partnerName
          paymentRef := banker.paymentRef
          amount := banker.txnAmount
          currency := orElse banker.txnCurrency "CHF"
          matchSuggestions := none
          transactionType := transactionTypeOf banker.txnAmount
          status := item.fields.status.getD status
          batchId := some banker.batchId
          currentStep := some (orElse banker.stepLabel item.fields.currentStep)
          jobId := some item.taskId
          createdAt := banker.transactionDate
          updatedAt := banker.transactionDate }
  { base with
    reconciliationDetails := banker.reconciliationDetails.filter fun details => details ≠ []
    resultCode := if banker.resultCode.truthy then some banker.resultCode else none }

/-! ### Suggestions for what is still to be processed -/

/-- `Counter(xs).most_common(1)`: the first of the most frequent texts. -/
def mostCommon (xs : List String) : Option String := xs.find? fun x => xs.all fun y => xs.count y ≤ xs.count x

/-- The rates that are asked for some transactions, and for the currencies of some more. -/
def fxCall (transactions : List Tx) (more : List String) : FxCache.Call :=
  let currencies := transactions.map fun tx => normalizeCurrency tx.currency
  let base := (mostCommon currencies).getD "CHF"
  let dates := (transactions.map Tx.date).filter fun date => date ≠ ""
  { baseCurrency := base
    targetCurrencies := (currencies ++ more.map normalizeCurrency).dedup.filter fun c => c ≠ base
    dateFrom := (dates.find? fun date => dates.all fun other => date ≤ other).getD ""
    dateTo := (dates.find? fun date => dates.all fun other => other ≤ date).getD "" }

/-- What suggestions are computed from: the interpreter, the rates that are answered to a call, and the open
documents. -/
structure MatchingSources where
  python : Interpreter
  rates : FxCache.Call → FxRates
  documents : OpenDocuments
  now : String

/-- The suggestions of a batch are attached to the transactions. -/
def enrichTransactions (sources : MatchingSources) (transactions : List BankTransaction) : List BankTransaction :=
  let txs := transactions.map BankTransaction.toTx
  let engine : BulkMatchingEngine := .withRates sources.python (sources.rates (fxCall txs []))
  let results := engine.computeSuggestions sources.now txs sources.documents
  transactions.map fun tx => { tx with toTx := enrich results tx.toTx }

/-! ### The crossing -/

/-- The four lists. -/
structure Organized where
  toProcess : List BankTransaction
  inProcess : List BankTransaction
  pending : List BankTransaction
  processed : List BankTransaction

/-- A list by its name. -/
def Organized.list (o : Organized) : Category → List BankTransaction
  | .toProcess => o.toProcess
  | .inProcess => o.inProcess
  | .pending => o.pending
  | .processed => o.processed

/-- The id that an open item takes out of the map, if it has one. -/
def Job.openKey (item : Job) : Option String :=
  let id := textOf item.fields.txId
  if id = "" then none else some id

/-- The id that an item which is done takes out of the map: it is looked for under two of the keys. -/
def Job.doneKey (item : Job) : Option String :=
  let id := textOf (((item.under [.banker, .bankerCapitalized]).map JobFields.txId).getD .none)
  if id = "" then none else some id

/-- `erp_map`. -/
def erpMap (erpTransactions : List ErpTransaction) : Dict String ErpTransaction :=
  Dict.ofList (erpTransactions.map fun tx => (tx.key, tx))

/-- The items in process, each with the id of its batch. -/
def BankerJobs.batchItems (jobs : BankerJobs) : List (String × Job) :=
  jobs.inProcess.entries.flatMap fun batch => batch.2.map fun item => (batch.1, item)

/-- The lists of `get_bank_transactions`; suggestions are computed if there are sources for them. -/
def organizedTransactions (erpTransactions : List ErpTransaction) (jobs : BankerJobs)
    (sources : Option MatchingSources) : Organized :=
  let (running, rest) := Dict.popEach (fun p => p.2.openKey) (erpMap erpTransactions) jobs.batchItems
  let (waiting, rest) := Dict.popEach Job.openKey rest jobs.pending
  let (done, rest) := Dict.popEach Job.doneKey rest jobs.processed
  let toProcess := rest.entries.map fun e => normalizeFromErp e.2
  { toProcess := sources.elim toProcess fun s => enrichTransactions s toProcess
    inProcess := running.filterMap fun p => p.2.map fun tx =>
      { normalizeFromTaskManager p.1.2 (some tx) "on_process" with batchId := some p.1.1 }
    pending := waiting.filterMap fun p => p.2.map fun tx => normalizeFromTaskManager p.1 (some tx) "pending"
    processed := done.map fun p => normalizeFromTaskManager p.1 p.2 "processed" }

/-! ### What the lists hold -/

section Lists

variable {lower : String → String} {mandatePath : String} {docs : List BankerTask}

variable (lower mandatePath) in
/-- The documents that select a list, each with its department data. -/
def filed (docs : List BankerTask) (c : Category) : List (BankerTask × JobFields) :=
  docs.filterMap fun doc =>
    if categoryOf (doc.status lower) = some c then (doc.bankerData mandatePath).map fun data => (doc, data) else none

variable (mandatePath) in
/-- The transaction that a document of the mandate is about. -/
def BankerTask.transaction (doc : BankerTask) : Option String :=
  (doc.bankerData mandatePath).map fun data => textOf data.txId

variable (lower mandatePath) in
/-- The list that the documents select for a transaction. -/
def selected (docs : List BankerTask) (id : String) : Category :=
  match docs.find? fun doc => doc.transaction mandatePath = some id with
  | some doc => (categoryOf (doc.status lower)).getD .toProcess
  | none => .toProcess

theorem textOf_of_truthy {v : Scalar} (h : v.truthy = true) : textOf v = v.toStr := by
  rw [textOf, Scalar.or, if_pos h]

theorem textOf_ne_empty {v : Scalar} (h : v.truthy = true) : textOf v ≠ "" := by
  rw [textOf_of_truthy h]
  exact Scalar.toStr_ne_empty h

theorem textOf_of_falsy {v : Scalar} (h : ¬v.truthy = true) : textOf v = "" := by
  rw [textOf, Scalar.or, if_neg h]
  rfl

/-- An item that takes a transaction is shown under its id. -/
theorem shownId_of_openKey {item : Job} {id : String} (h : item.openKey = some id) : item.shownId = id := by
  have htruthy : item.fields.txId.truthy = true := by
    by_contra hfalsy
    rw [Job.openKey, textOf_of_falsy hfalsy] at h
    cases h
  have hkey : item.fields.transactionId.isSome = true := by
    cases hid : item.fields.transactionId with
    | none =>
        rw [JobFields.txId, hid] at htruthy
        cases htruthy
    | some v => rfl
  simp only [Job.openKey, if_neg (textOf_ne_empty htruthy), Option.some.injEq] at h
  rw [Job.shownId, Job.shownData, if_pos hkey, Scalar.or, if_pos htruthy, ← h, textOf_of_truthy htruthy]

theorem truthy_of_bankerData {doc : BankerTask} {data : JobFields} (h : doc.bankerData mandatePath = some data) :
    data.txId.truthy = true := by
  rw [BankerTask.bankerData] at h
  split at h
  · exact (Option.filter_eq_some_iff.mp h).2
  · cases h

theorem openKey_item {doc : BankerTask} {data : JobFields} (h : doc.bankerData mandatePath = some data) :
    (doc.item lower data).openKey = some (textOf data.txId) :=
  if_neg (textOf_ne_empty (truthy_of_bankerData h))

theorem mem_filed {c : Category} {p : BankerTask × JobFields} :
    p ∈ filed lower mandatePath docs c ↔
      p.1 ∈ docs ∧ categoryOf (p.1.status lower) = some c ∧ p.1.bankerData mandatePath = some p.2 := by
  rw [filed, List.mem_filterMap]
  constructor
  · intro h
    obtain ⟨doc, hdoc, hp⟩ := h
    split at hp
    · next hc =>
      obtain ⟨data, hdata, rfl⟩ := Option.map_eq_some_iff.mp hp
      exact ⟨hdoc, hc, hdata⟩
    · cases hp
  · intro h
    obtain ⟨hdoc, hc, hdata⟩ := h
    exact ⟨p.1, hdoc, by rw [if_pos hc, hdata]; rfl⟩

variable (lower mandatePath) in
/-- The transactions of the documents that select a list. -/
def filedIds (docs : List BankerTask) (c : Category) : List String :=
  (filed lower mandatePath docs c).map fun p => textOf p.2.txId

theorem filedIds_sublist (docs : List BankerTask) (c : Category) :
    (filedIds lower mandatePath docs c).Sublist (docs.filterMap (BankerTask.transaction mandatePath)) := by
  induction docs with
  | nil => exact .slnil
  | cons doc docs ih =>
      rw [filedIds, filed, List.filterMap_cons, List.filterMap_cons, BankerTask.transaction]
      cases doc.bankerData mandatePath with
      | none =>
          simp only [Option.map_none, ite_self]
          exact ih
      | some data =>
          simp only [Option.map_some]
          by_cases hc : categoryOf (doc.status lower) = some c
          · simp only [if_pos hc, List.map_cons]
            exact ih.cons_cons _
          · simp only [if_neg hc]
            exact ih.cons _

/-- A document is found by its transaction, if no other one is about it. -/
theorem find?_transaction (hdocs : (docs.filterMap (BankerTask.transaction mandatePath)).Nodup) {doc : BankerTask}
    {id : String} (hdoc : doc ∈ docs) (hid : doc.transaction mandatePath = some id) :
    docs.find? (fun doc => doc.transaction mandatePath = some id) = some doc := by
  induction docs with
  | nil => cases hdoc
  | cons other docs ih =>
      by_cases hother : other.transaction mandatePath = some id
      · rw [List.find?_cons_of_pos (by simpa using hother)]
        rcases List.mem_cons.mp hdoc with rfl | hmem
        · rfl
        · rw [List.filterMap_cons, hother] at hdocs
          exact absurd (List.mem_filterMap.mpr ⟨doc, hmem, hid⟩) (List.nodup_cons.mp hdocs).1
      · rw [List.find?_cons_of_neg (by simpa using hother)]
        have hmem : doc ∈ docs := (List.mem_cons.mp hdoc).resolve_left fun heq => hother (heq ▸ hid)
        exact ih (hdocs.sublist ((List.sublist_cons_self _ _).filterMap _)) hmem

theorem selected_of_mem (hdocs : (docs.filterMap (BankerTask.transaction mandatePath)).Nodup) {doc : BankerTask}
    {id : String} (hdoc : doc ∈ docs) (hid : doc.transaction mandatePath = some id) :
    selected lower mandatePath docs id = (categoryOf (doc.status lower)).getD .toProcess := by
  rw [selected, find?_transaction hdocs hdoc hid]

/-- **The list that is selected**: the one among whose documents the transaction is. -/
theorem mem_filedIds_iff (hdocs : (docs.filterMap (BankerTask.transaction mandatePath)).Nodup) {c : Category}
    (hc : c ≠ .toProcess) {id : String} :
    id ∈ filedIds lower mandatePath docs c ↔ selected lower mandatePath docs id = c := by
  constructor
  · intro h
    obtain ⟨p, hp, rfl⟩ := List.mem_map.mp h
    obtain ⟨hdoc, hcategory, hdata⟩ := mem_filed.mp hp
    rw [selected_of_mem hdocs hdoc (by rw [BankerTask.transaction, hdata]; rfl), hcategory]
    rfl
  · intro h
    rw [selected] at h
    split at h
    · next doc hfind =>
      have hid := List.find?_some hfind
      rw [decide_eq_true_eq, BankerTask.transaction] at hid
      obtain ⟨data, hdata, rfl⟩ := Option.map_eq_some_iff.mp hid
      have hcategory : categoryOf (doc.status lower) = some c := by
        cases hstatus : categoryOf (doc.status lower) with
        | none =>
            rw [hstatus] at h
            exact absurd h.symm hc
        | some c' =>
            rw [hstatus] at h
            exact congrArg some h
      exact List.mem_map.mpr ⟨(doc, data), mem_filed.mpr ⟨List.mem_of_find?_eq_some hfind, hcategory, hdata⟩, rfl⟩
    · exact absurd h.symm hc

theorem count_filedIds (hdocs : (docs.filterMap (BankerTask.transaction mandatePath)).Nodup) {c : Category}
    (hc : c ≠ .toProcess) (id : String) :
    (filedIds lower mandatePath docs c).count id = if selected lower mandatePath docs id = c then 1 else 0 := by
  rw [(hdocs.sublist (filedIds_sublist docs c)).count]
  simp only [mem_filedIds_iff hdocs hc]

variable (lower mandatePath) in
/-- **What the task manager returns.** -/
theorem getBankerJobs_eq (docs : List BankerTask) :
    let jobs := getBankerJobsFromTaskManager lower mandatePath docs
    jobs.processed = (filed lower mandatePath docs .processed).map (fun p => p.1.toJob) ∧
    jobs.pending = (filed lower mandatePath docs .pending).map (fun p => p.1.item lower p.2) ∧
    (jobs.inProcess.entries.flatMap fun batch => batch.2).Perm
      ((filed lower mandatePath docs .inProcess).map fun p => p.1.item lower p.2) := by
  induction docs using List.reverseRecOn with
  | nil => exact ⟨rfl, rfl, .refl _⟩
  | append_singleton docs doc ih =>
      obtain ⟨hprocessed, hpending, hrunning⟩ := ih
      have hfiled (c : Category) : filed lower mandatePath (docs ++ [doc]) c = filed lower mandatePath docs c ++
          (if categoryOf (doc.status lower) = some c then
            ((doc.bankerData mandatePath).map fun data => (doc, data)).toList else []) := by
        rw [filed, filed, List.filterMap_append, List.filterMap_cons, List.filterMap_nil]
        by_cases hc : categoryOf (doc.status lower) = some c
        · rw [if_pos hc, if_pos hc]
          cases doc.bankerData mandatePath <;> rfl
        · rw [if_neg hc, if_neg hc]
      simp only [getBankerJobsFromTaskManager, List.foldl_append, List.foldl_cons, List.foldl_nil] at *
      simp only [hfiled, addJob]
      cases hdata : doc.bankerData mandatePath with
      | none => simpa using ⟨hprocessed, hpending, hrunning⟩
      | some data =>
          cases hc : categoryOf (doc.status lower) with
          | none => simpa using ⟨hprocessed, hpending, hrunning⟩
          | some c =>
              cases c with
              | toProcess => simpa using ⟨hprocessed, hpending, hrunning⟩
              | processed => simpa [hprocessed] using ⟨hpending, hrunning⟩
              | pending => simpa [hpending] using ⟨hprocessed, hrunning⟩
              | inProcess =>
                  refine ⟨by simpa using hprocessed, by simpa using hpending, ?_⟩
                  simp only [if_true, Option.map_some, Option.toList_some, List.map_append, List.map_cons, List.map_nil]
                  refine (Dict.perm_flatMap_set _ (fun items => items) _ _ [doc.item lower data] ?_).trans
                    (hrunning.append_right _)
                  refine List.Perm.append_right _ (.of_eq ?_)
                  cases Dict.get? _ (orElse data.batchId "unknown_batch") <;> rfl

/-! ### How often an id is in a list -/

/-- What is left after the three lists. -/
theorem key_of_get?_erpMap {erpTransactions : List ErpTransaction} {k : String} {tx : ErpTransaction}
    (h : (erpMap erpTransactions).get? k = some tx) : tx.key = k := by
  obtain ⟨tx', -, heq⟩ := List.mem_map.mp (Dict.mem_of_mem_ofList (Dict.mem_entries_iff.mpr h))
  cases heq
  rfl

theorem key_mem_erpMap {erpTransactions : List ErpTransaction} {tx : ErpTransaction} (h : tx ∈ erpTransactions) :
    tx.key ∈ (erpMap erpTransactions).keys := by
  by_contra hnot
  rw [← Dict.get?_eq_none_iff, erpMap, Dict.get?_ofList, Dict.lastOf_eq_none_iff, List.map_map] at hnot
  exact hnot (List.mem_map.mpr ⟨tx, h, rfl⟩)

theorem id_normalizeFromErp (tx : ErpTransaction) : (normalizeFromErp tx).id = tx.key := textOf_of_truthy tx.hasId

/-- The suggestions of a transaction do not change its id. -/
theorem id_enrich (results : Dict String MatchSuggestions) (tx : Tx) : (enrich results tx).id = tx.id := by
  rw [enrich]
  split
  · rfl
  · split <;> rfl

theorem ids_enrichTransactions (sources : MatchingSources) (transactions : List BankTransaction) :
    (enrichTransactions sources transactions).map (fun tx => tx.id) = transactions.map fun tx => tx.id := by
  rw [enrichTransactions, List.map_map]
  exact List.map_congr_left fun tx _ => id_enrich _ _

variable (lower mandatePath) in
theorem keys_pending (docs : List BankerTask) :
    (getBankerJobsFromTaskManager lower mandatePath docs).pending.filterMap Job.openKey =
      filedIds lower mandatePath docs .pending := by
  rw [(getBankerJobs_eq lower mandatePath docs).2.1, List.filterMap_map, filedIds, ← List.filterMap_eq_map]
  exact List.filterMap_congr fun p hp => openKey_item (mem_filed.mp hp).2.2

variable (lower mandatePath) in
theorem keys_batchItems (docs : List BankerTask) :
    ((getBankerJobsFromTaskManager lower mandatePath docs).batchItems.filterMap fun p => p.2.openKey).Perm
      (filedIds lower mandatePath docs .inProcess) := by
  have hitems : (getBankerJobsFromTaskManager lower mandatePath docs).batchItems.map Prod.snd =
      (getBankerJobsFromTaskManager lower mandatePath docs).inProcess.entries.flatMap fun batch => batch.2 := by
    simp [BankerJobs.batchItems, List.map_flatMap]
  have hkeys : ((filed lower mandatePath docs .inProcess).map fun p => p.1.item lower p.2).filterMap Job.openKey =
      filedIds lower mandatePath docs .inProcess := by
    rw [List.filterMap_map, filedIds, ← List.filterMap_eq_map]
    exact List.filterMap_congr fun p hp => openKey_item (mem_filed.mp hp).2.2
  have hperm := (getBankerJobs_eq lower mandatePath docs).2.2.filterMap Job.openKey
  rw [hkeys, ← hitems, List.filterMap_map] at hperm
  exact hperm

variable (lower mandatePath) in
/-- The items of the documents that are done. -/
def doneItems (docs : List BankerTask) : List Job := (filed lower mandatePath docs .processed).map fun p => p.1.toJob

variable (lower mandatePath) in
/-- How often an id of the ERP should be in a list, as far as the documents that are done are concerned. -/
def occurrences (docs : List BankerTask) (id : String) : Category → ℕ
  | .inProcess => if selected lower mandatePath docs id = .inProcess then 1 else 0
  | .pending => if selected lower mandatePath docs id = .pending then 1 else 0
  | .processed => ((doneItems lower mandatePath docs).map Job.shownId).count id
  | .toProcess =>
      if selected lower mandatePath docs id = .inProcess ∨ selected lower mandatePath docs id = .pending ∨
          id ∈ (doneItems lower mandatePath docs).filterMap Job.doneKey then 0 else 1

section Crossing

variable {erpTransactions : List ErpTransaction} {sources : Option MatchingSources} {id : String}

theorem mem_batchKeys_iff (hdocs : (docs.filterMap (BankerTask.transaction mandatePath)).Nodup) :
    (id ∈ (getBankerJobsFromTaskManager lower mandatePath docs).batchItems.filterMap fun p => p.2.openKey) ↔
      selected lower mandatePath docs id = .inProcess := by
  rw [(keys_batchItems lower mandatePath docs).mem_iff]
  exact mem_filedIds_iff hdocs (by decide)

theorem mem_pendingKeys_iff (hdocs : (docs.filterMap (BankerTask.transaction mandatePath)).Nodup) :
    id ∈ (getBankerJobsFromTaskManager lower mandatePath docs).pending.filterMap Job.openKey ↔
      selected lower mandatePath docs id = .pending := by
  rw [keys_pending]
  exact mem_filedIds_iff hdocs (by decide)

theorem count_inProcess (hdocs : (docs.filterMap (BankerTask.transaction mandatePath)).Nodup)
    (hid : id ∈ (erpMap erpTransactions).keys) :
    ((organizedTransactions erpTransactions (getBankerJobsFromTaskManager lower mandatePath docs) sources).inProcess.map
      fun t => t.id).count id = if selected lower mandatePath docs id = .inProcess then 1 else 0 := by
  have hkeys := keys_batchItems lower mandatePath docs
  have hnodup := hkeys.nodup_iff.mpr (hdocs.sublist (filedIds_sublist docs .inProcess))
  rw [← count_filedIds hdocs (by decide), ← hkeys.count_eq]
  refine (Dict.count_found (f := fun (p : String × Job) tx =>
      { normalizeFromTaskManager p.2 (some tx) "on_process" with batchId := some p.1 })
    (g := fun t => t.id) hnodup ?_ id).trans (if_pos hid)
  intro p tx hfound
  cases hkey : p.2.openKey with
  | none =>
      rw [hkey] at hfound
      cases hfound
  | some k => exact congrArg some (shownId_of_openKey hkey).symm

theorem count_pending (hdocs : (docs.filterMap (BankerTask.transaction mandatePath)).Nodup)
    (hid : id ∈ (erpMap erpTransactions).keys) :
    ((organizedTransactions erpTransactions (getBankerJobsFromTaskManager lower mandatePath docs) sources).pending.map
      fun t => t.id).count id = if selected lower mandatePath docs id = .pending then 1 else 0 := by
  have hnodup := (keys_pending lower mandatePath docs) ▸
    hdocs.sublist (filedIds_sublist docs .pending)
  rw [← count_filedIds hdocs (by decide), ← keys_pending]
  refine (Dict.count_found (f := fun item tx => normalizeFromTaskManager item (some tx) "pending")
    (g := fun t => t.id) hnodup ?_ id).trans ?_
  · intro item tx hfound
    cases hkey : item.openKey with
    | none =>
        rw [hkey] at hfound
        cases hfound
    | some k => exact congrArg some (shownId_of_openKey hkey).symm
  · -- What the items in process have taken is not pending.
    rw [ite_eq_left_iff]
    intro hgone
    symm
    rw [List.count_eq_zero, mem_pendingKeys_iff hdocs]
    intro hpending
    refine hgone (Dict.mem_keys_popEach.mpr ⟨hid, ?_⟩)
    rw [mem_batchKeys_iff hdocs, hpending]
    decide

theorem count_processed :
    ((organizedTransactions erpTransactions (getBankerJobsFromTaskManager lower mandatePath docs) sources).processed.map
      fun t => t.id).count id = ((doneItems lower mandatePath docs).map Job.shownId).count id := by
  have hshown (item : Job) (tx : Option ErpTransaction) :
      (normalizeFromTaskManager item tx "processed").id = item.shownId := by
    cases tx <;> rfl
  have hids (d : Dict String ErpTransaction) (items : List Job) :
      ((Dict.popEach Job.doneKey d items).1.map fun p => normalizeFromTaskManager p.1 p.2 "processed").map
        (fun t => t.id) = items.map Job.shownId := by
    calc _ = ((Dict.popEach Job.doneKey d items).1.map Prod.fst).map Job.shownId := by
          rw [List.map_map, List.map_map]
          exact List.map_congr_left fun p _ => hshown p.1 p.2
      _ = items.map Job.shownId := by rw [Dict.map_fst_popEach]
  rw [doneItems, ← (getBankerJobs_eq lower mandatePath docs).1]
  exact congrArg (List.count id) (hids _ _)

theorem count_toProcess (hdocs : (docs.filterMap (BankerTask.transaction mandatePath)).Nodup)
    (hid : id ∈ (erpMap erpTransactions).keys) :
    ((organizedTransactions erpTransactions (getBankerJobsFromTaskManager lower mandatePath docs) sources).toProcess.map
      fun t => t.id).count id = occurrences lower mandatePath docs id .toProcess := by
  let jobs := getBankerJobsFromTaskManager lower mandatePath docs
  let afterRunning := (Dict.popEach (fun p : String × Job => p.2.openKey) (erpMap erpTransactions) jobs.batchItems).2
  let afterWaiting := (Dict.popEach Job.openKey afterRunning jobs.pending).2
  let left := (Dict.popEach Job.doneKey afterWaiting jobs.processed).2
  have hids : (left.entries.map fun e => normalizeFromErp e.2).map (fun t => t.id) = left.keys := by
    rw [List.map_map]
    refine List.map_congr_left fun e he => ?_
    have hget : (erpMap erpTransactions).get? e.1 = some e.2 :=
      Dict.get?_of_popEach (Dict.get?_of_popEach (Dict.get?_of_popEach (Dict.mem_entries_iff.mp he)))
    exact (id_normalizeFromErp e.2).trans (key_of_get?_erpMap hget)
  have hlist : ((organizedTransactions erpTransactions jobs sources).toProcess.map fun t => t.id) = left.keys := by
    cases sources with
    | none => exact hids
    | some s => exact (ids_enrichTransactions s _).trans hids
  have hmem : id ∈ left.keys ↔ ¬(selected lower mandatePath docs id = .inProcess ∨
      selected lower mandatePath docs id = .pending ∨ id ∈ (doneItems lower mandatePath docs).filterMap Job.doneKey) := by
    rw [Dict.mem_keys_popEach, Dict.mem_keys_popEach, Dict.mem_keys_popEach, mem_batchKeys_iff hdocs,
      mem_pendingKeys_iff hdocs, (getBankerJobs_eq lower mandatePath docs).1]
    simp only [hid, true_and, not_or, and_assoc]
    rfl
  have hcount : left.keys.count id = if id ∈ left.keys then 1 else 0 := List.Nodup.count left.nodup
  rw [hlist, hcount, occurrences]
  simp only [hmem, ite_not]

/-- **How often an id of the ERP is in a list.** -/
theorem count_list (hdocs : (docs.filterMap (BankerTask.transaction mandatePath)).Nodup)
    (hid : id ∈ (erpMap erpTransactions).keys) (c : Category) :
    (((organizedTransactions erpTransactions (getBankerJobsFromTaskManager lower mandatePath docs) sources).list c).map
      fun t => t.id).count id = occurrences lower mandatePath docs id c := by
  cases c with
  | toProcess => exact count_toProcess hdocs hid
  | inProcess => exact count_inProcess hdocs hid
  | pending => exact count_pending hdocs hid
  | processed => exact count_processed

end Crossing

/-! ### The partition -/

variable (lower mandatePath) in
/-- The id of each transaction of the ERP is once in the list that the documents select for it, and in no other. -/
def Partitioned (erpTransactions : List ErpTransaction) (docs : List BankerTask) (o : Organized) : Prop :=
  ∀ tx ∈ erpTransactions, ∀ c, ((o.list c).map fun t => t.id).count tx.key =
    if c = selected lower mandatePath docs tx.key then 1 else 0

variable (lower mandatePath) in
/-- The documents that are done are shown under an id as often as one of them selects it, and one of them looks up the
id if they select it, none if no document does. -/
def FiledAsSelected (docs : List BankerTask) (id : String) : Prop :=
  ((doneItems lower mandatePath docs).map Job.shownId).count id =
      (if selected lower mandatePath docs id = .processed then 1 else 0) ∧
    (selected lower mandatePath docs id = .processed → id ∈ (doneItems lower mandatePath docs).filterMap Job.doneKey) ∧
    (selected lower mandatePath docs id = .toProcess → id ∉ (doneItems lower mandatePath docs).filterMap Job.doneKey)

instance (id : String) : Decidable (FiledAsSelected lower mandatePath docs id) :=
  inferInstanceAs (Decidable (_ ∧ _ ∧ _))

theorem occurrences_iff {id : String} :
    (∀ c, occurrences lower mandatePath docs id c = if c = selected lower mandatePath docs id then 1 else 0) ↔
      FiledAsSelected lower mandatePath docs id := by
  constructor
  · intro h
    have hprocessed := h .processed
    have htoProcess := h .toProcess
    simp only [occurrences] at hprocessed htoProcess
    refine ⟨by rw [hprocessed]; simp only [eq_comm], fun hs => ?_, fun hs => ?_⟩
    · by_contra hnot
      simp [hs, hnot] at htoProcess
    · by_contra hmem
      simp [hs, hmem] at htoProcess
  · intro h c
    obtain ⟨hshown, hdone, hopen⟩ := h
    cases c with
    | inProcess => simp only [occurrences, eq_comm]
    | pending => simp only [occurrences, eq_comm]
    | processed =>
        rw [occurrences, hshown]
        simp only [eq_comm]
    | toProcess =>
        rw [occurrences]
        cases hs : selected lower mandatePath docs id with
        | toProcess => simp [hopen hs]
        | inProcess => simp
        | pending => simp
        | processed => simp [hdone hs]

/-- **The lists partition the transactions of the ERP** as their documents say, exactly when the documents that are done
are looked up and shown under the ids they are selected by. -/
theorem partitioned_iff (lower : String → String) (mandatePath : String) (erpTransactions : List ErpTransaction)
    {docs : List BankerTask} (hdocs : (docs.filterMap (BankerTask.transaction mandatePath)).Nodup)
    (sources : Option MatchingSources) :
    Partitioned lower mandatePath erpTransactions docs
        (organizedTransactions erpTransactions (getBankerJobsFromTaskManager lower mandatePath docs) sources) ↔
      ∀ tx ∈ erpTransactions, FiledAsSelected lower mandatePath docs tx.key := by
  refine forall₂_congr fun tx htx => ?_
  rw [← occurrences_iff]
  refine forall_congr' fun c => ?_
  rw [count_list hdocs (key_mem_erpMap htx)]

/-- A document has its data under one key, and no transaction id beside them. -/
def BankerTask.Single (doc : BankerTask) : Prop :=
  doc.fields.transactionId = none ∧
    ∃ key data, doc.departmentData = Function.update (fun _ => none) key (some data)

theorem data_of_single {doc : BankerTask} {data : JobFields} (hsingle : doc.Single)
    (hdata : doc.bankerData mandatePath = some data) :
    ∃ key, doc.departmentData = Function.update (fun _ => none) key (some data) := by
  obtain ⟨-, key, data', hdept⟩ := hsingle
  rw [BankerTask.bankerData] at hdata
  split at hdata
  · have hunder := (Option.filter_eq_some_iff.mp hdata).1
    rw [Job.under, hdept] at hunder
    have heq : data' = data := by
      cases key <;> exact Option.some.inj hunder
    exact ⟨key, heq ▸ hdept⟩
  · cases hdata

/-- Such a document is shown under the id it is selected by. -/
theorem shownId_of_single {doc : BankerTask} {data : JobFields} (hsingle : doc.Single)
    (hdata : doc.bankerData mandatePath = some data) : doc.toJob.shownId = textOf data.txId := by
  obtain ⟨key, hdept⟩ := data_of_single hsingle hdata
  have htruthy := truthy_of_bankerData hdata
  have hshown : doc.toJob.shownData = data := by
    rw [Job.shownData, hsingle.1, Job.under, hdept]
    cases key <;> rfl
  rw [Job.shownId, hshown, Scalar.or, if_pos htruthy, textOf_of_truthy htruthy]

/-- It is looked up unless its data are under `Bankbookeeper`. -/
theorem doneKey_of_single {doc : BankerTask} {data : JobFields} (hsingle : doc.Single)
    (hdata : doc.bankerData mandatePath = some data) :
    doc.toJob.doneKey = if doc.departmentData .bankbookeeper = none then some (textOf data.txId) else none := by
  obtain ⟨key, hdept⟩ := data_of_single hsingle hdata
  have hne := textOf_ne_empty (truthy_of_bankerData hdata)
  rw [Job.doneKey, Job.under, hdept]
  cases key with
  | bankbookeeper => rfl
  | banker => exact if_neg hne
  | bankerCapitalized => exact if_neg hne

theorem shownIds_of_single (hsingle : ∀ doc ∈ docs, doc.Single) :
    (doneItems lower mandatePath docs).map Job.shownId = filedIds lower mandatePath docs .processed := by
  rw [doneItems, List.map_map]
  refine List.map_congr_left fun p hp => ?_
  obtain ⟨hdoc, -, hdata⟩ := mem_filed.mp hp
  exact shownId_of_single (hsingle p.1 hdoc) hdata

theorem mem_doneKeys_of_single (hsingle : ∀ doc ∈ docs, doc.Single) {id : String} :
    id ∈ (doneItems lower mandatePath docs).filterMap Job.doneKey ↔
      ∃ doc ∈ docs, doc.transaction mandatePath = some id ∧ categoryOf (doc.status lower) = some .processed ∧
        doc.departmentData .bankbookeeper = none := by
  rw [doneItems, List.filterMap_map, List.mem_filterMap]
  constructor
  · intro h
    obtain ⟨p, hp, hkey⟩ := h
    obtain ⟨hdoc, hc, hdata⟩ := mem_filed.mp hp
    rw [Function.comp_apply, doneKey_of_single (hsingle p.1 hdoc) hdata] at hkey
    split at hkey
    · next hnone =>
      refine ⟨p.1, hdoc, ?_, hc, hnone⟩
      rw [BankerTask.transaction, hdata]
      exact hkey
    · cases hkey
  · intro h
    obtain ⟨doc, hdoc, hid, hc, hnone⟩ := h
    obtain ⟨data, hdata, rfl⟩ := Option.map_eq_some_iff.mp hid
    refine ⟨(doc, data), mem_filed.mpr ⟨hdoc, hc, hdata⟩, ?_⟩
    exact (doneKey_of_single (hsingle doc hdoc) hdata).trans (if_pos hnone)

/-- **Documents with one key each** are filed as selected exactly when none of them is done and under
`Bankbookeeper`. -/
theorem filed_iff_of_single (hdocs : (docs.filterMap (BankerTask.transaction mandatePath)).Nodup)
    (hsingle : ∀ doc ∈ docs, doc.Single) (id : String) :
    FiledAsSelected lower mandatePath docs id ↔
      ∀ doc ∈ docs, doc.transaction mandatePath = some id → categoryOf (doc.status lower) = some .processed →
        doc.departmentData .bankbookeeper = none := by
  rw [FiledAsSelected, shownIds_of_single hsingle, count_filedIds hdocs (by decide), mem_doneKeys_of_single hsingle]
  constructor
  · intro h doc hdoc hid hc
    have hselected : selected lower mandatePath docs id = .processed := by
      rw [selected_of_mem hdocs hdoc hid, hc]
      rfl
    obtain ⟨doc', hdoc', hid', -, hnone⟩ := h.2.1 hselected
    have heq : some doc = some doc' := (find?_transaction hdocs hdoc hid).symm.trans (find?_transaction hdocs hdoc' hid')
    rw [Option.some.inj heq]
    exact hnone
  · intro h
    refine ⟨rfl, fun hselected => ?_, fun hselected hmem => ?_⟩
    · obtain ⟨p, hp, hid⟩ := List.mem_map.mp ((mem_filedIds_iff hdocs (by decide)).mpr hselected)
      obtain ⟨hdoc, hc, hdata⟩ := mem_filed.mp hp
      have htransaction : p.1.transaction mandatePath = some id := by
        rw [BankerTask.transaction, hdata, ← hid]
        rfl
      exact ⟨p.1, hdoc, htransaction, hc, h p.1 hdoc htransaction hc⟩
    · obtain ⟨doc, hdoc, hid, hc, -⟩ := hmem
      rw [selected_of_mem hdocs hdoc hid, hc] at hselected
      cases hselected

end Lists

/-- A payment that the ERP has not reconciled. -/
def openPayment : ErpTransaction where
  moveId := .int 577
  id := .int 12
  hasId := by decide
  amount := -100
  journalId := .int 18
  journalName := "Bank"
  date := "2026-03-05"
  ref := ""
  name := ""
  paymentRef := "Acme"
  displayName := ""
  partnerName := "Acme"
  currencyName := "CHF"

/-- A document about it, with its data under a key. -/
def paymentTask (key : DepartmentKey) (status : String) : BankerTask where
  id := "company_18_577"
  department := "Bankbookeeper"
  mandatePath := "mandates/m"
  fields := { status := some status }
  departmentData := fun k => if k = key then some { transactionId := some (.str "577") } else none

theorem partitioned_of_banker :
    Partitioned lower "mandates/m" [openPayment] [paymentTask .banker "completed"]
      (organizedTransactions [openPayment]
        (getBankerJobsFromTaskManager lower "mandates/m" [paymentTask .banker "completed"]) none) :=
  (partitioned_iff lower "mandates/m" [openPayment] (by decide +kernel) none).mpr (by decide +kernel)

/-- **A reconciled transaction is still open**: the data of its document are under `Bankbookeeper`. -/
theorem processed_and_open :
    let docs := [paymentTask .bankbookeeper "completed"]
    let o := organizedTransactions [openPayment] (getBankerJobsFromTaskManager lower "mandates/m" docs) none
    o.processed.map (fun t => t.id) = ["577"] ∧ o.toProcess.map (fun t => t.id) = ["577"] ∧
      ¬Partitioned lower "mandates/m" [openPayment] docs o := by
  refine ⟨by decide +kernel, by decide +kernel, fun h => ?_⟩
  exact absurd (h openPayment (List.mem_singleton_self _) .toProcess) (by decide +kernel)

end Pinnokio.Banking
