import Pinnokio.ActiveJobs.Manager

/-!
# Dispatch of a batch and its task_manager messages

A batch meets the queue at two places.  `handle_job_process` builds the payload, registers it in `active_jobs` and
writes one task_manager record per job; the workers answer with task_manager messages, and
`_handle_task_manager_message` passes their status on to the queue.  The ids of the jobs are computed three times:
from the payload (at registration), from the request (for the records) and by the worker (in the messages, which
repeat the id of the record).

* `handleJobProcess` — the payload, the registration and the records;
* `handleTaskManagerMessage` — from a message to the status update.
-/

namespace Pinnokio.ActiveJobs

open Pinnokio.Text

/-! ### Requests -/

/-- A key of `JOB_TYPE_CONFIG`. -/
inductive JobType where
  | router
  | apbookeeper
  | bankbookeeper
  | exbookeeper
  | onboarding
  | hr
  deriving DecidableEq

/-- `ACTIVE_JOB_TYPE_MAP`. -/
def JobType.activeJobType : JobType → String
  | .router => "router"
  | .apbookeeper => "apbookeeper"
  | .bankbookeeper => "banker"
  | .exbookeeper => "exbookeeper"
  | .onboarding => "onboarding"
  | .hr => "hr"

/-- The `department` of `JOB_TYPE_CONFIG`. -/
def JobType.department : JobType → String
  | .router => "Router"
  | .apbookeeper => "APbookeeper"
  | .bankbookeeper => "Bankbookeeper"
  | .exbookeeper => "EXbookeeper"
  | .onboarding => "Onboarding"
  | .hr => "HR"

/-- A text the subscriber takes for a timestamp sentinel of the document store. -/
def isSentinel (v : String) : Bool := "Sentinel:".toList.isPrefixOf v.toList

/-- What `handle_job_process` reads of its arguments, with the company id and the batch id resolved; an empty list
or text stands for a missing value.  The batch id is never empty, since a missing one is replaced by a fresh id. -/
structure Request where
  uid : String
  jobType : JobType
  companyId : String
  clientUuid : String
  mandatePath : String
  batchId : String
  pubSubId : String
  startInstructions : String
  documentIds : List String
  jobsData : List JobItem
  jobsDataPrebuilt : List JobItem
  transactionsData : List Fields
  bankAccount : String
  bankAccountId : String
  batchId_ne : batchId ≠ ""
  batchId_plain : isSentinel batchId = false
  mandatePath_plain : isSentinel mandatePath = false

/-- The values that count as ids, as texts. -/
def idsOf (xs : List Scalar) : List String := (xs.filter Scalar.truthy).map Scalar.toStr

/-- `item.get("job_id") or item.get("drive_file_id")`. -/
def JobItem.ownId (item : JobItem) : Scalar := (item.fields.get "job_id").or (item.fields.get "drive_file_id")

/-- `tx.get("transaction_id") or tx.get("id")`. -/
def txOwnId (tx : Fields) : Scalar := (tx.get "transaction_id").or (tx.get "id")

/-- `str(tx.get("account_id") or tx.get("journal_id") or bank_account_id)`. -/
def accountOf (bankAccountId : String) (tx : Fields) : String :=
  (((tx.get "account_id").or (tx.get "journal_id")).or (.str bankAccountId)).toStr

namespace Request

/-- `document_ids`, derived from `jobs_data` when the request has none. -/
def resolvedIds (r : Request) : List String :=
  if r.documentIds ≠ [] then r.documentIds
  else
    match r.jobType with
    | .bankbookeeper => idsOf (r.jobsData.flatMap fun item => item.transactions.map txOwnId)
    | _ => idsOf (r.jobsData.map JobItem.ownId)

/-- The transactions by account, in the order of their first transaction. -/
def accountGroups (r : Request) : Dict String (List Fields) :=
  r.transactionsData.foldl
    (fun groups tx =>
      let acct := accountOf r.bankAccountId tx
      groups.set acct ((groups.get? acct).getD [] ++ [tx])) ∅

/-- A banker job: the transactions of one account. -/
def bankerJob (acctName : Scalar) (acctId : String) (txs : List Fields) : JobItem where
  fields := Dict.ofList [("bank_account", acctName), ("bank_account_id", .str acctId)]
  transactions := txs

/-- The name of the account of a group. -/
def accountName (r : Request) : List Fields → Scalar
  | [] => .str r.bankAccount
  | tx :: _ =>
      ((tx.getD "account_name" (.str "")).or (tx.getD "journal_name" (.str ""))).or (.str r.bankAccount)

/-- `_build_banker_jobs_data`. -/
def buildBankerJobsData (r : Request) : List JobItem :=
  if r.jobsData ≠ [] then r.jobsData
  else if r.transactionsData ≠ [] then
    r.accountGroups.entries.map fun g => bankerJob (r.accountName g.2) g.1 g.2
  else [bankerJob (.str r.bankAccount) r.bankAccountId []]

/-- The job of a document that was selected in the interface. -/
def uiJob (r : Request) (docId : String) : JobItem where
  fields := Dict.ofList [("drive_file_id", .str docId), ("job_id", .str docId),
    ("status", .str (if r.jobType = .router then "to_route" else "to_process"))]
  transactions := []

/-- `jobs_data`, as it is sent to the worker. -/
def jobs (r : Request) : List JobItem :=
  if r.jobsDataPrebuilt ≠ [] then r.jobsDataPrebuilt
  else if r.jobType = .bankbookeeper then r.buildBankerJobsData
  else if r.jobsData ≠ [] then r.jobsData
  else r.resolvedIds.map r.uiJob

/-- The id of an onboarding: that of its first job, the batch id if the job has no `job_id`. -/
def onboardingId (r : Request) : Scalar :=
  match r.jobs with
  | [] => .str r.batchId
  | first :: _ => first.fields.getD "job_id" (.str r.batchId)

/-- `jobbeur_payload`; an onboarding is sent in a flat format with its first job only. -/
def jobbeurPayload (r : Request) : JobData :=
  if r.jobType = .onboarding then
    let first := (r.jobs.head?.map JobItem.fields).getD ∅
    { fields := Dict.ofList [("firebase_user_id", .str r.uid), ("user_id", .str r.uid),
        ("client_uuid", .str r.clientUuid), ("job_id", r.onboardingId),
        ("mandate_path", .str r.mandatePath), ("mandates_path", .str r.mandatePath),
        ("mode", .str "onboarding"), ("setup_coa_type", first.get "setup_coa_type"),
        ("erp_system", first.get "erp_system"),
        ("context", first.getD "initial_context_data" (.str "")), ("batch_id", .str r.batchId),
        ("pub_sub_id", .str r.pubSubId), ("collection_name", .str r.companyId)]
      jobsData := []
      items := [] }
  else
    { fields := Dict.ofList [("collection_name", .str r.companyId),
        ("start_instructions", .str r.startInstructions), ("client_uuid", .str r.clientUuid),
        ("user_id", .str r.uid), ("pub_sub_id", .str r.pubSubId),
        ("mandates_path", .str r.mandatePath), ("batch_id", .str r.batchId)]
      jobsData := r.jobs
      items := [] }

end Request

/-! ### Task manager records -/

/-- A record of `clients/{uid}/task_manager`, as `_persist_jobs_to_task_manager` writes it. -/
structure TaskRecord where
  jobId : String
  status : String
  department : String
  mandatePath : Option String
  collectionId : String
  batchId : String
  departmentData : Fields

namespace Request

/-- The record of a job. -/
def record (r : Request) (mandatePath : Option String) (departmentData : Fields) (jobId : String) :
    TaskRecord :=
  ⟨jobId, "in_queue", r.jobType.department, mandatePath, r.companyId, r.batchId, departmentData⟩

/-- The transactions with a record: those of the request, or those of its jobs with the account of the job. -/
def recordedTransactions (r : Request) : List Fields :=
  if r.transactionsData ≠ [] then r.transactionsData
  else
    r.jobs.flatMap fun item =>
      let acct := item.fields.getD "bank_account_id" (.str r.bankAccountId)
      let name := item.fields.getD "bank_account" (.str "")
      item.transactions.map fun tx =>
        (((tx.setDefault "account_id" acct).setDefault "journal_id" acct).setDefault
          "account_name" name).setDefault "journal_name" name

/-- `str(tx.get("id") or tx.get("move_id") or tx.get("transaction_id", ""))`. -/
def moveId (tx : Fields) : String :=
  (((tx.get "id").or (tx.get "move_id")).or (tx.getD "transaction_id" (.str ""))).toStr

/-- `f"{company_id}_{acct_id}_{move_id}"`. -/
def compositeKey (r : Request) (tx : Fields) : String :=
  r.companyId ++ "_" ++ accountOf r.bankAccountId tx ++ "_" ++ moveId tx

/-- `job_item.get("job_id", f"payroll_{batch_id}")`. -/
def payrollId (r : Request) (item : JobItem) : String :=
  (item.fields.getD "job_id" (.str ("payroll_" ++ r.batchId))).toStr

/-- The records `_persist_jobs_to_task_manager` asks for. -/
def jobRecords (r : Request) : List TaskRecord :=
  match r.jobType with
  | .router => r.resolvedIds.map (r.record (some r.mandatePath) ∅)
  | .apbookeeper => r.resolvedIds.map (r.record none ∅)
  | .bankbookeeper => r.recordedTransactions.map fun tx =>
      r.record (some r.mandatePath) (Dict.ofList [("batch_id", .str r.batchId),
        ("bank_account_id", .str (accountOf r.bankAccountId tx)), ("transaction_id", .str (moveId tx))])
        (r.compositeKey tx)
  | .exbookeeper => []
  | .onboarding => r.resolvedIds.map (r.record (some r.mandatePath) ∅)
  | .hr => r.jobs.map fun item =>
      r.record (some r.mandatePath) (Dict.ofList [("employee_id", item.fields.getD "employee_id" (.str "")),
        ("action", item.fields.getD "action" (.str "calculate")),
        ("period_year", item.fields.get "period_year"),
        ("period_month", item.fields.get "period_month")]) (r.payrollId item)

/-- `_persist_jobs_to_task_manager`: a record without an id cannot be addressed, and is not written. -/
def persistJobsToTaskManager (r : Request) : List TaskRecord :=
  r.jobRecords.filter fun t => t.jobId ≠ ""

end Request

/-- `handle_job_process` from the request to the records; the calls to the worker and the notifications are not
part of the queue. -/
def handleJobProcess (s : Store) (r : Request) (now : ℕ) : Except String (Store × List TaskRecord) :=
  if r.resolvedIds = [] then .error "No documents selected"
  else .ok ((registerJob s r.mandatePath r.jobbeurPayload r.batchId r.jobType.activeJobType now).1,
    r.persistJobsToTaskManager)

/-! ### Messages -/

/-- A message of the channel `user:{uid}/task_manager`.  An empty text stands for a missing value, and
`dataBatchId` is the batch id in the nested `data` object, if there is such an object. -/
structure Message where
  type : String
  jobId : String
  department : String
  collectionId : String
  companyId : String
  mandatePath : String
  status : String
  batchId : String
  dataBatchId : Option String

/-- `_sanitize_value`; `now` is the time it reads. -/
def sanitizeValue (now v : String) : String := if isSentinel v then now else v

/-- `_extract_active_job_type`. -/
def extractActiveJobType (department : String) : Option String :=
  (Dict.ofList [("router", "router"), ("routing", "router"), ("apbookeeper", "apbookeeper"),
    ("accounting", "apbookeeper"), ("banker", "banker"), ("bankbookeeper", "banker"),
    ("banking", "banker"), ("exbookeeper", "exbookeeper"), ("onboarding", "onboarding"),
    ("hr", "hr")] : Dict String String).get? (lower department)

/-- `_extract_department_to_domain`. -/
def extractDepartmentToDomain (department : String) : String :=
  ((Dict.ofList [("accounting", "invoices"), ("apbookeeper", "invoices"), ("banking", "bank"),
    ("banker", "bank"), ("bankbookeeper", "bank"), ("exbookeeper", "expenses"), ("routing", "routing"),
    ("router", "routing"), ("hr", "hr"), ("expenses", "expenses"), ("coa", "coa"),
    ("onboarding", "onboarding")] : Dict String String).get? (lower department)).getD (lower department)

/-- A message as it is handled, with the times that are read meanwhile. -/
structure Delivery where
  message : Message
  sanitizedAt : String
  now : ℕ
  promoteNow : ℕ

namespace Delivery

/-- A field after `_sanitize_value`. -/
def clean (d : Delivery) (field : Message → String) : String := sanitizeValue d.sanitizedAt (field d.message)

/-- `collection_id or company_id`. -/
def company (d : Delivery) : String := orElse (d.clean Message.collectionId) (d.clean Message.companyId)

/-- The batch id of the nested `data` object. -/
def dataBatch (d : Delivery) : Option String := d.message.dataBatchId.map (sanitizeValue d.sanitizedAt)

/-- The batch id a message is handled with.  The handler of HR messages looks at the message first; the other one
looks only at `data` when there is such an object. -/
def batch (d : Delivery) : String :=
  if extractDepartmentToDomain d.message.department = "hr" then
    orElse (d.clean Message.batchId) (d.dataBatch.getD "")
  else d.dataBatch.getD (d.clean Message.batchId)

end Delivery

/-- `_handle_task_manager_message`, what it does to the queue. -/
def handleTaskManagerMessage (s : Store) (d : Delivery) : Store :=
  let m := d.message
  let domain := extractDepartmentToDomain m.department
  let status := d.clean Message.status
  if d.company = "" ∨ domain = "" then s
  else if domain = "coa" ∧ (m.type = "coa_harmonized" ∨ m.type = "gl_sync_requested") then s
  else if domain = "hr" then
    (updateJobStatusInActive s "hr" (d.clean Message.mandatePath) m.jobId (orElse status "unknown")
      (some d.batch) d.now d.promoteNow).1
  else
    match extractActiveJobType m.department with
    | none => s
    | some jobType =>
        if status = "" then s
        else (updateJobStatusInActive s jobType (d.clean Message.mandatePath) m.jobId status
          (some d.batch) d.now d.promoteNow).1

end Pinnokio.ActiveJobs
