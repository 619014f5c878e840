import Pinnokio.ActiveJobs.Dispatch
import Pinnokio.Lib.Checklist

/-!
# Completion of a batch

The `on_process` document of a batch is a checklist: it lists the ids read from the payload, a terminal status
removes an id, any other status puts it (back) on the list, and the document is deleted when the list is empty
after a status.  The messages carry the ids of the task_manager records.  So the batch ends with its last job
only if the two kinds of ids agree.

* `handleTaskManagerMessage_eq` — what a message of a batch does to the queue;
* `tasks_deliver`, `tasks_run` — **the document refines the checklist**, along every run of messages;
* `completes_iff` — the document is deleted exactly with the last job, for every request and every order of
  messages in which no finished job is opened again, if and only if the ids of the payload are those of the
  records (or there is one record, and the payload has no ids at all).
-/

namespace Pinnokio.ActiveJobs

open Pinnokio.Runs Pinnokio.Text Pinnokio.Checklist

/-! ### The messages of a batch -/

namespace Request

/-- The ids of the jobs: those of their task_manager records. -/
def recordIds (r : Request) : List String := r.persistJobsToTaskManager.map TaskRecord.jobId

/-- The document id of the batch. -/
def batchDoc (r : Request) : String := docId r.mandatePath r.batchId

end Request

/-- A message about a job of the batch, with its batch id at the place where the handler looks for it. -/
structure Delivery.IsFor (r : Request) (d : Delivery) : Prop where
  department : d.message.department = r.jobType.department
  company : d.company ≠ ""
  mandate : d.clean Message.mandatePath = r.mandatePath
  batch : d.batch = r.batchId
  job : d.message.jobId ∈ r.recordIds

namespace Delivery

/-- The status the handler records, if it records one. -/
def recorded (d : Delivery) : Option String :=
  if extractDepartmentToDomain d.message.department = "hr" then
    some (orElse (d.clean Message.status) "unknown")
  else if d.clean Message.status = "" then none
  else some (d.clean Message.status)

/-- The message as a report to the checklist. -/
def report? (d : Delivery) : Option (Report String) :=
  d.recorded.map fun status => ⟨d.message.jobId, decide (status ∈ terminalStatuses)⟩

end Delivery

section Messages

variable {r : Request} {d : Delivery} {s : Store}

/-- The department of a job type leads back to its collection. -/
theorem department_activeJobType (t : JobType) :
    extractDepartmentToDomain t.department ≠ "" ∧ extractDepartmentToDomain t.department ≠ "coa" ∧
      extractActiveJobType t.department = some t.activeJobType ∧
      (extractDepartmentToDomain t.department = "hr" → t.activeJobType = "hr") := by
  cases t <;> decide

theorem handleTaskManagerMessage_eq (h : d.IsFor r) : handleTaskManagerMessage s d =
    match d.recorded with
    | none => s
    | some status => (updateJobStatusInActive s r.jobType.activeJobType r.mandatePath d.message.jobId status
        (some r.batchId) d.now d.promoteNow).1 := by
  obtain ⟨hne, hcoa, hactive, hhr⟩ := department_activeJobType r.jobType
  simp only [handleTaskManagerMessage, Delivery.recorded, h.department, h.mandate, h.batch, h.company, hne,
    hcoa, hactive, or_self, false_and, if_false]
  by_cases hdom : extractDepartmentToDomain r.jobType.department = "hr"
  · simp only [hdom, if_true, hhr hdom]
  · simp only [hdom, if_false]
    split <;> rfl

end Messages

/-! ### The document as a checklist -/

/-- The jobs on the list of the batch; `none` once its document is deleted. -/
def tasks (r : Request) (s : Store) : Option (Set String) :=
  ((s r.jobType.activeJobType .onProcess).get? r.batchDoc).map fun d => {k | k ∈ d.jobsStatus.keys}

/-- No batch that waits has the id of this one. -/
def NotWaiting (r : Request) (s : Store) : Prop :=
  ∀ e ∈ (s r.jobType.activeJobType .pending).entries, e.2.mandatePath = r.mandatePath →
    e.2.jobKey ≠ r.batchId

section Refinement

variable {r : Request} {s : Store}

/-- The promotion of another batch leaves this one alone. -/
theorem promoteNextPending_tasks (h : NotWaiting r s) (now : ℕ) :
    tasks r (promoteNextPending s r.jobType.activeJobType r.mandatePath now).1 = tasks r s ∧
      NotWaiting r (promoteNextPending s r.jobType.activeJobType r.mandatePath now).1 := by
  unfold promoteNextPending
  cases ho : oldestPending (s r.jobType.activeJobType .pending) r.mandatePath with
  | none => exact ⟨rfl, h⟩
  | some e =>
      obtain ⟨hmem, hm⟩ := oldestPending_mem ho
      have hne : r.batchDoc ≠ docId r.mandatePath e.2.jobKey := fun heq =>
        h e hmem hm (docId_injective heq).symm
      refine ⟨?_, fun x hx => ?_⟩
      · simp only [tasks, Store.put, Store.delete, Store.change_pending_onProcess, Store.change_same,
          Dict.get?_set_ne _ _ hne]
      · simp only [Store.put, Store.delete, Store.change_same, Store.change_onProcess_pending] at hx
        exact h x (List.mem_filter.mp hx).1

/-- The keys after a status. -/
theorem keys_applyStatus (js : JobsStatus) (jobId status : String) :
    {k | k ∈ (applyStatus js jobId status).keys} =
      report {k | k ∈ js.keys} ⟨jobId, decide (status ∈ terminalStatuses)⟩ := by
  ext k
  by_cases h : status ∈ terminalStatuses
  · simp [applyStatus, h, report, Dict.mem_keys_erase, and_comm]
  · simp [applyStatus, h, report, Dict.mem_keys_set]

/-- A status update of the batch is a step of its checklist. -/
theorem updateJobStatusInActive_tasks (h : NotWaiting r s) (jobId status : String) (now promoteNow : ℕ) :
    tasks r (updateJobStatusInActive s r.jobType.activeJobType r.mandatePath jobId status (some r.batchId)
        now promoteNow).1 =
      step (tasks r s) ⟨jobId, decide (status ∈ terminalStatuses)⟩ ∧
    NotWaiting r (updateJobStatusInActive s r.jobType.activeJobType r.mandatePath jobId status
      (some r.batchId) now promoteNow).1 := by
  have hkey : batchDocId r.mandatePath (some r.batchId) = some r.batchDoc := if_neg r.batchId_ne
  have hdel : ∀ id, NotWaiting r (s.delete r.jobType.activeJobType .onProcess id) := by
    intro id x hx
    simp only [Store.delete, Store.change_onProcess_pending] at hx
    exact h x hx
  have hmod : ∀ id f, NotWaiting r (s.change r.jobType.activeJobType .onProcess fun c => c.modify id f) := by
    intro id f x hx
    simp only [Store.change_onProcess_pending] at hx
    exact h x hx
  cases hg : (s r.jobType.activeJobType .onProcess).get? r.batchDoc with
  | some d =>
      -- the batch is running: the fast path finds its document
      have hfind : findActiveDoc s r.jobType.activeJobType r.mandatePath jobId (some r.batchId) =
          some (r.batchDoc, d) := by
        simp [findActiveDoc, lookupBatch, hkey, hg]
      have htasks : tasks r s = some {k | k ∈ d.jobsStatus.keys} := by simp [tasks, hg]
      have hrep := keys_applyStatus d.jobsStatus jobId status
      simp only [updateJobStatusInActive, hfind, htasks]
      by_cases he : (applyStatus d.jobsStatus jobId status).isEmpty = true
      · simp only [he, if_true]
        obtain ⟨ht, hw⟩ := promoteNextPending_tasks (hdel r.batchDoc) promoteNow
        refine ⟨ht.trans ?_, hw⟩
        rw [step_of_empty]
        · simp [tasks, Store.delete]
        · rw [← hrep, Set.eq_empty_iff_forall_notMem]
          exact Dict.isEmpty_iff.mp he
      · have hsome := Store.update?_of_get? (setStatus (applyStatus d.jobsStatus jobId status) now) hg
        simp only [he, hsome]
        refine ⟨?_, hmod _ _⟩
        have hk : ∃ k, k ∈ (applyStatus d.jobsStatus jobId status).keys := by
          by_contra hno
          push Not at hno
          exact he (Dict.isEmpty_iff.mpr hno)
        obtain ⟨k, hk⟩ := hk
        rw [step_of_mem (k := k) (hrep ▸ hk), ← hrep]
        simp [tasks, Dict.get?_modify, hg, setStatus]
  | none =>
      -- the batch is gone: the scan may find another batch, under another id
      have htasks : tasks r s = none := by simp [tasks, hg]
      have hfind : findActiveDoc s r.jobType.activeJobType r.mandatePath jobId (some r.batchId) =
          scanFor (s r.jobType.activeJobType .onProcess) r.mandatePath jobId := by
        simp [findActiveDoc, lookupBatch, hkey, hg]
      simp only [updateJobStatusInActive, hfind, htasks, step_none]
      cases hscan : scanFor (s r.jobType.activeJobType .onProcess) r.mandatePath jobId with
      | none => exact ⟨htasks, h⟩
      | some e =>
          obtain ⟨id, d⟩ := e
          simp only
          split
          · obtain ⟨ht, hw⟩ := promoteNextPending_tasks (hdel id) promoteNow
            refine ⟨ht.trans ?_, hw⟩
            simp [tasks, Store.delete, Dict.get?_erase, hg]
          · split
            · exact ⟨htasks, h⟩
            · rename_i s' hs'
              obtain ⟨-, rfl⟩ := Store.update?_eq_some hs'
              refine ⟨?_, hmod _ _⟩
              simp [tasks, Dict.get?_modify, hg]

/-- The messages as reports to the checklist. -/
def reports (ds : List Delivery) : List (Report String) := ds.filterMap Delivery.report?

/-- **One message** of the batch is a step of its checklist. -/
theorem tasks_deliver {d : Delivery} (hd : d.IsFor r) (h : NotWaiting r s) :
    tasks r (handleTaskManagerMessage s d) = run step (tasks r s) (reports [d]) ∧
      NotWaiting r (handleTaskManagerMessage s d) := by
  rw [handleTaskManagerMessage_eq hd]
  cases hrec : d.recorded with
  | none =>
      have hr : reports [d] = [] := by simp [reports, Delivery.report?, hrec]
      rw [hr]
      exact ⟨rfl, h⟩
  | some status =>
      have hr : reports [d] = [⟨d.message.jobId, decide (status ∈ terminalStatuses)⟩] := by
        simp [reports, Delivery.report?, hrec]
      rw [hr]
      exact updateJobStatusInActive_tasks h d.message.jobId status d.now d.promoteNow

/-- **Every run of messages** is a run of the checklist. -/
theorem tasks_run (ds : List Delivery) (hds : ∀ d ∈ ds, d.IsFor r) (h : NotWaiting r s) :
    tasks r (run handleTaskManagerMessage s ds) = run step (tasks r s) (reports ds) := by
  induction ds generalizing s with
  | nil => rfl
  | cons d ds ih =>
      obtain ⟨htasks, hw⟩ := tasks_deliver (hds d (by simp)) h
      have hcons : reports (d :: ds) = reports [d] ++ reports ds := by
        rw [reports, reports, reports, ← List.filterMap_append, List.singleton_append]
      show tasks r (run handleTaskManagerMessage (handleTaskManagerMessage s d) ds) = _
      rw [ih (fun x hx => hds x (by simp [hx])) hw, htasks, hcons, run, run, run, List.foldl_append]

end Refinement

/-! ### The ids of a request -/

namespace Request

/-- The ids the jobs carry in the payload of their type. -/
def ownIds (r : Request) : List String :=
  match r.jobType with
  | .router => idsOf (r.jobs.map JobItem.ownId)
  | .apbookeeper => idsOf (r.jobs.map JobItem.ownId)
  | .bankbookeeper => idsOf (r.jobs.flatMap fun item =>
      if item.transactions.isEmpty then [(item.fields.get "job_id").or (item.fields.get "id")]
      else item.transactions.map txOwnId)
  | .exbookeeper => []
  | .onboarding => idsOf [r.onboardingId]
  | .hr => []

/-- The jobs carry the ids of their records, or there is one record and the jobs carry no id. -/
def idsMatch (r : Request) : Prop :=
  (∀ id, id ∈ r.ownIds ↔ id ∈ r.recordIds) ∨ r.ownIds = [] ∧ ∃ id, ∀ x ∈ r.recordIds, x = id

end Request

theorem mem_idsOf {xs : List Scalar} {k : String} :
    k ∈ idsOf xs ↔ ∃ x ∈ xs, x.truthy = true ∧ k = x.toStr := by
  simp only [idsOf, List.mem_map, List.mem_filter, and_assoc]
  constructor
  · intro h
    obtain ⟨x, hx, ht, rfl⟩ := h
    exact ⟨x, hx, ht, rfl⟩
  · intro h
    obtain ⟨x, hx, ht, rfl⟩ := h
    exact ⟨x, hx, ht, rfl⟩

/-- The ids of one banker item. -/
theorem mem_keys_addBankerItem {js : JobsStatus} {item : JobItem} {k : String} :
    k ∈ (addBankerItem js item).keys ↔ k ∈ js.keys ∨ k ∈ idsOf
      (if item.transactions.isEmpty then [(item.fields.get "job_id").or (item.fields.get "id")]
        else item.transactions.map txOwnId) := by
  unfold addBankerItem
  cases ht : item.transactions with
  | nil =>
      simp only [List.foldl_nil, List.isEmpty_nil, if_true, mem_keys_addJob, mem_idsOf,
        List.mem_singleton, exists_eq_left]
      tauto
  | cons tx txs =>
      simp only [List.isEmpty_cons, Bool.false_eq_true, if_false, mem_keys_foldl_addJob, mem_idsOf,
        List.mem_map, exists_exists_and_eq_and, txOwnId]

theorem mem_keys_foldl_addBankerItem (items : List JobItem) (js : JobsStatus) (k : String) :
    k ∈ (items.foldl addBankerItem js).keys ↔ k ∈ js.keys ∨ k ∈ idsOf (items.flatMap fun item =>
      if item.transactions.isEmpty then [(item.fields.get "job_id").or (item.fields.get "id")]
      else item.transactions.map txOwnId) := by
  induction items generalizing js with
  | nil => simp [idsOf]
  | cons item items ih =>
      rw [List.foldl_cons, ih, mem_keys_addBankerItem, List.flatMap_cons, idsOf, idsOf, idsOf,
        List.filter_append, List.map_append, List.mem_append, or_assoc]

/-- **The registration lists the ids of the payload.** -/
theorem mem_extractJobIds (r : Request) (k : String) :
    k ∈ (extractJobIdsFromPayload r.jobbeurPayload r.jobType.activeJobType).keys ↔ k ∈ r.ownIds := by
  cases ht : r.jobType with
  | router =>
      simp [extractJobIdsFromPayload, JobType.activeJobType, Request.jobbeurPayload, Request.ownIds, ht,
        mem_keys_foldl_addJob, mem_idsOf, JobItem.ownId]
  | apbookeeper =>
      simp [extractJobIdsFromPayload, JobType.activeJobType, Request.jobbeurPayload, Request.ownIds, ht,
        mem_keys_foldl_addJob, mem_idsOf, JobItem.ownId]
  | bankbookeeper =>
      simp [extractJobIdsFromPayload, JobType.activeJobType, Request.jobbeurPayload, Request.ownIds, ht,
        mem_keys_foldl_addBankerItem]
  | exbookeeper =>
      simp [extractJobIdsFromPayload, JobType.activeJobType, Request.ownIds, ht]
  | onboarding =>
      have hjob : r.jobbeurPayload.fields.get "job_id" = r.onboardingId := by
        simp only [Request.jobbeurPayload, ht, if_true]
        rw [Fields.get, Dict.get?_ofList]
        rfl
      simp [extractJobIdsFromPayload, JobType.activeJobType, Request.ownIds, ht, hjob, mem_keys_addJob,
        mem_idsOf]
  | hr =>
      simp [extractJobIdsFromPayload, JobType.activeJobType, Request.ownIds, ht]

/-! ### Completion -/

section Completion

variable {r : Request} {s : Store}

/-- The dispatch of a batch whose mandate has nothing running opens its checklist. -/
theorem tasks_registerJob (h : NotWaiting r s)
    (hidle : whereMandate (s r.jobType.activeJobType .onProcess) r.mandatePath = []) (now : ℕ) :
    tasks r (registerJob s r.mandatePath r.jobbeurPayload r.batchId r.jobType.activeJobType now).1 =
        some {k | k ∈ r.ownIds} ∧
      NotWaiting r (registerJob s r.mandatePath r.jobbeurPayload r.batchId r.jobType.activeJobType now).1 := by
  have hreg : (registerJob s r.mandatePath r.jobbeurPayload r.batchId r.jobType.activeJobType now).1 =
      s.put r.jobType.activeJobType .onProcess r.batchDoc
        (jobDocument r.mandatePath r.jobbeurPayload r.batchId r.jobType.activeJobType true now) := by
    simp [registerJob, hidle, Request.batchDoc]
  rw [hreg]
  refine ⟨?_, fun x hx => ?_⟩
  · simp [tasks, Store.put, jobDocument, mem_extractJobIds]
  · simp only [Store.put, Store.change_onProcess_pending] at hx
    exact h x hx

/-- A message that makes the given report. -/
def messageOf (r : Request) (rep : Report String) : Delivery where
  message :=
    { type := "task_manager_updated"
      jobId := rep.item
      department := r.jobType.department
      collectionId := "company"
      companyId := ""
      mandatePath := r.mandatePath
      status := if rep.finished then "completed" else "in_progress"
      batchId := r.batchId
      dataBatchId := none }
  sanitizedAt := ""
  now := 0
  promoteNow := 0

theorem messageOf_isFor {rep : Report String} (h : rep.item ∈ r.recordIds) : (messageOf r rep).IsFor r where
  department := rfl
  company := (by decide : orElse (sanitizeValue "" "company") (sanitizeValue "" "") ≠ "")
  mandate := by simp [Delivery.clean, sanitizeValue, messageOf, r.mandatePath_plain]
  batch := by
    simp [Delivery.batch, Delivery.dataBatch, Delivery.clean, sanitizeValue, messageOf, r.batchId_plain,
      orElse, r.batchId_ne]
  job := h

theorem messageOf_report? (r : Request) (rep : Report String) : (messageOf r rep).report? = some rep := by
  have hstatus : (messageOf r rep).clean Message.status =
      if rep.finished then "completed" else "in_progress" := by
    cases hf : rep.finished <;> simp only [Delivery.clean, messageOf, hf] <;> decide
  have hrec : (messageOf r rep).recorded = some (if rep.finished then "completed" else "in_progress") := by
    unfold Delivery.recorded
    rw [hstatus]
    cases rep.finished <;> simp [orElse]
  obtain ⟨item, finished⟩ := rep
  rw [Delivery.report?, hrec]
  cases finished <;> simp [messageOf, terminalStatuses]

theorem reports_messageOf (r : Request) (rs : List (Report String)) :
    reports (rs.map (messageOf r)) = rs := by
  induction rs with
  | nil => rfl
  | cons rep rs ih =>
      rw [reports, List.map_cons, List.filterMap_cons, messageOf_report?]
      exact congrArg (rep :: ·) ih

theorem reports_item {ds : List Delivery} (hds : ∀ d ∈ ds, d.IsFor r) :
    ∀ rep ∈ reports ds, rep.item ∈ r.recordIds := by
  intro rep hrep
  obtain ⟨d, hd, hr⟩ := List.mem_filterMap.mp hrep
  obtain ⟨status, -, rfl⟩ := Option.map_eq_some_iff.mp hr
  exact (hds d hd).job

/-- **A batch ends with its last job.**  For every request that is dispatched while its mandate has nothing
running: along every sequence of messages about its jobs in which no finished job is opened again, the
`on_process` document is gone exactly when every job has received a terminal status, if and only if the jobs
carry the ids of their records (or there is a single record and the jobs carry no id). -/
theorem completes_iff (s s' : Store) (r : Request) (now : ℕ) (records : List TaskRecord)
    (hidle : whereMandate (s r.jobType.activeJobType .onProcess) r.mandatePath = [])
    (hfresh : NotWaiting r s) (hdispatch : handleJobProcess s r now = .ok (s', records))
    (hjobs : records ≠ []) :
    (∀ ds : List Delivery, (∀ d ∈ ds, d.IsFor r) → InOrder r.recordIds (reports ds) →
      (r.batchDoc ∉ (run handleTaskManagerMessage s' ds r.jobType.activeJobType .onProcess).keys ↔
        ∀ job ∈ records, FinishedIn (reports ds) job.jobId)) ↔ r.idsMatch := by
  have hok : (registerJob s r.mandatePath r.jobbeurPayload r.batchId r.jobType.activeJobType now).1 = s' ∧
      r.persistJobsToTaskManager = records := by
    unfold handleJobProcess at hdispatch
    split at hdispatch
    · cases hdispatch
    · cases hdispatch
      exact ⟨rfl, rfl⟩
  obtain ⟨rfl, rfl⟩ := hok
  obtain ⟨htasks, hw⟩ := tasks_registerJob hfresh hidle now
  have hids : r.recordIds ≠ [] := by simpa [Request.recordIds] using hjobs
  have hdone : ∀ rs, (∀ job ∈ r.persistJobsToTaskManager, FinishedIn rs job.jobId) ↔
      ∀ k ∈ r.recordIds, FinishedIn rs k := by
    simp [Request.recordIds]
  have hgone : ∀ ds : List Delivery, (∀ d ∈ ds, d.IsFor r) →
      (r.batchDoc ∉ (run handleTaskManagerMessage (registerJob s r.mandatePath r.jobbeurPayload r.batchId
        r.jobType.activeJobType now).1 ds r.jobType.activeJobType .onProcess).keys ↔
        run step (some {k | k ∈ r.ownIds}) (reports ds) = none) := by
    intro ds hds
    rw [← htasks, ← tasks_run ds hds hw, tasks, Option.map_eq_none_iff, Dict.get?_eq_none_iff]
  have hempty : {k | k ∈ r.ownIds} = (∅ : Set String) ↔ r.ownIds = [] := by
    rw [Set.eq_empty_iff_forall_notMem, List.eq_nil_iff_forall_not_mem]
    rfl
  rw [Request.idsMatch, ← hempty]
  refine Iff.trans ?_ (closes_iff {k | k ∈ r.ownIds} hids)
  constructor
  · intro h rs hitems hord
    have hfor : ∀ d ∈ rs.map (messageOf r), d.IsFor r := by
      intro d hd
      obtain ⟨rep, hrep, rfl⟩ := List.mem_map.mp hd
      exact messageOf_isFor (hitems rep hrep)
    have hrs := reports_messageOf r rs
    have hclose := h (rs.map (messageOf r)) hfor (hrs.symm ▸ hord)
    rwa [hgone _ hfor, hdone, hrs] at hclose
  · intro h ds hds hord
    rw [hgone ds hds, hdone]
    exact h (reports ds) (reports_item hds) hord

end Completion

/-! ### Which requests match -/

section Matching

variable {r : Request}

theorem idsOf_str (ids : List String) : idsOf (ids.map Scalar.str) = ids.filter fun id => id ≠ "" := by
  induction ids with
  | nil => rfl
  | cons id ids ih =>
      rw [idsOf] at ih ⊢
      by_cases h : id = "" <;> simp [Scalar.truthy, Scalar.toStr, h, ih]

/-- The records of a request with one record per document. -/
theorem recordIds_of_documents (h : r.jobType = .router ∨ r.jobType = .apbookeeper ∨
    r.jobType = .onboarding) : r.recordIds = r.resolvedIds.filter fun id => id ≠ "" := by
  rcases h with h | h | h <;>
    simp [Request.recordIds, Request.persistJobsToTaskManager, Request.jobRecords, h, List.filter_map,
      Request.record, Function.comp_def]

/-- A selection of files or invoices in the interface always matches. -/
theorem idsMatch_of_selection (ht : r.jobType = .router ∨ r.jobType = .apbookeeper)
    (hpre : r.jobsDataPrebuilt = []) (hjobs : r.jobsData = []) : r.idsMatch := by
  have hne : r.jobType ≠ .bankbookeeper := by rcases ht with h | h <;> simp [h]
  have hown : r.ownIds = idsOf (r.jobs.map JobItem.ownId) := by
    rcases ht with h | h <;> simp [Request.ownIds, h]
  have hjobs' : r.jobs.map JobItem.ownId = r.resolvedIds.map Scalar.str := by
    have heach : ∀ id, (r.uiJob id).ownId = .str id := by
      intro id
      by_cases h : id = "" <;>
        simp [JobItem.ownId, Request.uiJob, Fields.get, Dict.ofList, Dict.get?_set, Scalar.or,
          Scalar.truthy, h]
    simp [Request.jobs, hpre, hne, hjobs, Function.comp_def, heach]
  refine Or.inl fun id => ?_
  rw [hown, hjobs', idsOf_str, recordIds_of_documents (by tauto)]

/-- Jobs that another worker has built, without a list of documents, always match. -/
theorem idsMatch_of_jobsData (ht : r.jobType = .router ∨ r.jobType = .apbookeeper)
    (hpre : r.jobsDataPrebuilt = []) (hjobs : r.jobsData ≠ []) (hdocs : r.documentIds = []) :
    r.idsMatch := by
  have hne : r.jobType ≠ .bankbookeeper := by rcases ht with h | h <;> simp [h]
  have hown : r.ownIds = idsOf (r.jobsData.map JobItem.ownId) := by
    rcases ht with h | h <;> simp [Request.ownIds, Request.jobs, hpre, hjobs, h]
  have hres : r.resolvedIds = idsOf (r.jobsData.map JobItem.ownId) := by
    rcases ht with h | h <;> simp [Request.resolvedIds, hdocs, h]
  refine Or.inl fun id => ?_
  rw [hown, recordIds_of_documents (by tauto), hres]
  simp only [List.mem_filter, mem_idsOf, decide_eq_true_eq]
  constructor
  · intro h'
    obtain ⟨x, hx, hx', rfl⟩ := h'
    exact ⟨⟨x, hx, hx', rfl⟩, Scalar.toStr_ne_empty hx'⟩
  · exact fun h => h.1

/-- A payroll batch matches only if it has a single job. -/
theorem idsMatch_hr_iff (ht : r.jobType = .hr) :
    r.idsMatch ↔ ∃ id, ∀ x ∈ r.recordIds, x = id := by
  have hown : r.ownIds = [] := by simp [Request.ownIds, ht]
  rw [Request.idsMatch, hown]
  constructor
  · intro h'
    rcases h' with h | ⟨-, h⟩
    · exact ⟨"", fun x hx => absurd ((h x).mpr hx) (by simp)⟩
    · exact h
  · exact fun h => Or.inr ⟨rfl, h⟩

end Matching

/-- Two files selected in the interface. -/
def twoFiles : Request where
  uid := "u"
  jobType := .router
  companyId := "co"
  clientUuid := "cu"
  mandatePath := "clients/u/mandates/m"
  batchId := "batch_1"
  pubSubId := "ps"
  startInstructions := ""
  documentIds := ["f1", "f2"]
  jobsData := []
  jobsDataPrebuilt := []
  transactionsData := []
  bankAccount := ""
  bankAccountId := ""
  batchId_ne := by decide
  batchId_plain := by decide
  mandatePath_plain := by decide

/-- The batch of two files ends when both are completed. -/
theorem completes_iff_two_files : ∃ s' records,
    handleJobProcess Store.empty twoFiles 1 = .ok (s', records) ∧
      twoFiles.batchDoc ∉ (run handleTaskManagerMessage s' ((finish ["f2", "f1"]).map (messageOf twoFiles))
        "router" .onProcess).keys := by
  refine ⟨_, _, rfl, ?_⟩
  have hfor : ∀ d ∈ (finish ["f2", "f1"]).map (messageOf twoFiles), d.IsFor twoFiles := by
    intro d hd
    obtain ⟨rep, hrep, rfl⟩ := List.mem_map.mp hd
    obtain ⟨id, hid, rfl⟩ := List.mem_map.mp hrep
    have hids : ∀ id ∈ ["f2", "f1"], id ∈ twoFiles.recordIds := by decide
    exact messageOf_isFor (hids id hid)
  have hreports := reports_messageOf twoFiles (finish ["f2", "f1"])
  refine ((completes_iff Store.empty _ twoFiles 1 twoFiles.persistJobsToTaskManager rfl nofun rfl
    (by decide)).mpr (idsMatch_of_selection (Or.inl rfl) rfl rfl) _ hfor ?_).mpr ?_
  · rw [hreports]
    exact inOrder_finish _ _
  · rw [hreports]
    simp only [finishedIn_finish]
    decide

/-- One bank transaction. -/
def oneTransfer : Request :=
  { twoFiles with
    jobType := .bankbookeeper
    documentIds := ["t1"]
    transactionsData := [Dict.ofList [("transaction_id", .str "t1"), ("account_id", .str "a1")]] }

/-- The only transaction of a bank batch is completed, under the id of its record, and the batch stays. -/
theorem banker_batch_never_ends :
    oneTransfer.recordIds = ["co_a1_t1"] ∧ ∃ s' records,
      handleJobProcess Store.empty oneTransfer 1 = .ok (s', records) ∧
      oneTransfer.batchDoc ∈ (run handleTaskManagerMessage s'
        [messageOf oneTransfer ⟨"co_a1_t1", true⟩] "banker" .onProcess).keys :=
  ⟨by decide, _, _, rfl, by decide⟩

end Pinnokio.ActiveJobs
