import Pinnokio.Lib.Json

/-!
# Job payloads and the ids extracted from them

A batch payload is a JSON object.  The queue reads the ids of the individual jobs out of it once, at
registration (`ActiveJobManager._extract_job_ids_from_payload`): which key is read, and at which level,
depends on the job type.  Only the keys that the code reads have a meaning here; the others travel with the
payload.

The values of `jobs_status` are status texts.  A client that writes a dotted field path through an id that
contains dots leaves a nested map behind, so the value type has both forms.
-/

namespace Pinnokio.ActiveJobs

/-- One element of `jobs_data` or `items`, with its `transactions` list. -/
structure JobItem where
  fields : Fields
  transactions : List Fields

/-- A job payload: its own scalar keys, `jobs_data` and `items`. -/
structure JobData where
  fields : Fields
  jobsData : List JobItem
  items : List JobItem

/-- A value of the `jobs_status` map. -/
inductive StatusVal where
  | text (s : String)
  | nested (fields : List (String × StatusVal))

/-- The `jobs_status` map of a batch document. -/
abbrev JobsStatus := Dict String StatusVal

/-- `if jid: jobs_status[str(jid)] = "in_queue"`. -/
def addJob (jobsStatus : JobsStatus) (jid : Scalar) : JobsStatus :=
  if jid.truthy then jobsStatus.set jid.toStr (.text "in_queue") else jobsStatus

/-- The ids a banker item contributes: those of its transactions, or its own when it has none. -/
def addBankerItem (jobsStatus : JobsStatus) (item : JobItem) : JobsStatus :=
  let withTxs := item.transactions.foldl
    (fun acc tx => addJob acc ((tx.get "transaction_id").or (tx.get "id"))) jobsStatus
  if item.transactions.isEmpty then
    addJob withTxs ((item.fields.get "job_id").or (item.fields.get "id"))
  else withTxs

/-- `_extract_job_ids_from_payload`. -/
def extractJobIdsFromPayload (jobData : JobData) (jobType : String) : JobsStatus :=
  if jobType = "onboarding" then addJob ∅ (jobData.fields.get "job_id")
  else if jobType = "router" ∨ jobType = "apbookeeper" then
    jobData.jobsData.foldl
      (fun acc item => addJob acc ((item.fields.get "job_id").or (item.fields.get "drive_file_id"))) ∅
  else if jobType = "banker" then jobData.jobsData.foldl addBankerItem ∅
  else if jobType = "reversereconciliation" then
    jobData.items.foldl
      (fun acc item => addJob acc ((item.fields.get "job_id").or (item.fields.get "item_id"))) ∅
  else ∅

/-- A router payload with one file. -/
def routerPayload (fileId : String) : JobData where
  fields := ∅
  jobsData := [⟨Dict.ofList [("job_id", .str fileId)], []⟩]
  items := []

theorem mem_keys_addJob {js : JobsStatus} {jid : Scalar} {k : String} :
    k ∈ (addJob js jid).keys ↔ (jid.truthy = true ∧ k = jid.toStr) ∨ k ∈ js.keys := by
  by_cases h : jid.truthy = true
  · simp [addJob, h, Dict.mem_keys_set]
  · simp [addJob, h]

/-- The keys collected by a loop that adds one id per element. -/
theorem mem_keys_foldl_addJob {α : Type*} (f : α → Scalar) (xs : List α) (js : JobsStatus) (k : String) :
    k ∈ (xs.foldl (fun acc x => addJob acc (f x)) js).keys ↔
      k ∈ js.keys ∨ ∃ x ∈ xs, (f x).truthy = true ∧ k = (f x).toStr := by
  induction xs generalizing js with
  | nil => simp
  | cons x xs ih =>
      rw [List.foldl_cons, ih, mem_keys_addJob]
      simp only [List.mem_cons, exists_eq_or_imp]
      tauto

end Pinnokio.ActiveJobs
