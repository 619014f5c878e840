import Mathlib.Data.List.Sort
import Pinnokio.ActiveJobs.MandatePath
import Pinnokio.ActiveJobs.Payload

/-!
# The active-jobs queue manager

`ActiveJobManager` keeps, for every job type, two Firestore collections of batch documents: `on_process`
holds the running batch of each mandate, `pending` the batches waiting behind it.  This file is the model of
its operations as they run when nothing else touches the store:

* `registerJob` — start the batch, or queue it behind the running one (one transaction);
* `updateJobStatusInActive` — record the status of one job; the batch whose last job is done is deleted and
  the oldest pending batch of the mandate takes its place (`promoteNextPending`);
* `requestStop` — mark a running batch, or remove jobs from a pending one, found by key or by scanning.

What a single call reads, decides and writes is cut into the same small functions here and in the
step-by-step model of concurrent calls.
-/

namespace Pinnokio.ActiveJobs

open Pinnokio.Text

/-! ### Documents and collections -/

/-- A document of `active_jobs/{job_type}/{pending|on_process}`.  `job_key`, `job_id` and `batch_id` hold
the same text, and so do `mandate_path` and `mandates_path`. -/
structure JobDoc where
  jobKey : String
  mandatePath : String
  jobType : String
  payload : JobData
  jobsStatus : JobsStatus
  createdAt : ℕ
  startedAt : Option ℕ
  stopRequested : Bool
  stopRequestedTransactions : List String
  stopRequestedAt : Option ℕ
  lastUpdated : ℕ

/-- The two subcollections of a job type. -/
inductive Sub where
  | onProcess
  | pending
  deriving DecidableEq

/-- The text of a subcollection name. -/
def Sub.name : Sub → String
  | .onProcess => "on_process"
  | .pending => "pending"

/-- The documents of one subcollection, by document id. -/
abbrev Col := Dict String JobDoc

/-- The queue's part of the document store: job type, subcollection, documents. -/
def Store := String → Sub → Col

namespace Store

/-- The store before the first registration. -/
def empty : Store := fun _ _ => ∅

/-- Change one subcollection. -/
def change (s : Store) (t : String) (sub : Sub) (f : Col → Col) : Store :=
  fun t' sub' => if t' = t ∧ sub' = sub then f (s t sub) else s t' sub'

/-- `ref.set(doc)`. -/
def put (s : Store) (t : String) (sub : Sub) (id : String) (doc : JobDoc) : Store :=
  s.change t sub fun c => c.set id doc

/-- `ref.delete()`; deleting an absent document is no error. -/
def delete (s : Store) (t : String) (sub : Sub) (id : String) : Store :=
  s.change t sub fun c => c.erase id

/-- `ref.update(fields)`; `none` is the `NotFound` of an absent document. -/
def update? (s : Store) (t : String) (sub : Sub) (id : String) (f : JobDoc → JobDoc) : Option Store :=
  match (s t sub).get? id with
  | none => none
  | some _ => some (s.change t sub fun c => c.modify id f)

@[simp] theorem change_same (s : Store) (t : String) (sub : Sub) (f : Col → Col) :
    s.change t sub f t sub = f (s t sub) := by
  simp [change]

theorem change_other (s : Store) {t t' : String} {sub sub' : Sub} (f : Col → Col)
    (h : ¬(t' = t ∧ sub' = sub)) : s.change t sub f t' sub' = s t' sub' := by
  simp [change, h]

@[simp] theorem change_onProcess_pending (s : Store) (t t' : String) (f : Col → Col) :
    s.change t .onProcess f t' .pending = s t' .pending :=
  change_other s f (by simp)

@[simp] theorem change_pending_onProcess (s : Store) (t t' : String) (f : Col → Col) :
    s.change t .pending f t' .onProcess = s t' .onProcess :=
  change_other s f (by simp)

theorem update?_eq_some {s s' : Store} {t : String} {sub : Sub} {id : String} {f : JobDoc → JobDoc}
    (h : s.update? t sub id f = some s') :
    (∃ d, (s t sub).get? id = some d) ∧ s' = s.change t sub fun c => c.modify id f := by
  unfold update? at h
  split at h
  · cases h
  · rename_i d hd
    exact ⟨⟨d, hd⟩, (Option.some.inj h).symm⟩

theorem update?_of_get? {s : Store} {t : String} {sub : Sub} {id : String} {d : JobDoc}
    (f : JobDoc → JobDoc) (h : (s t sub).get? id = some d) :
    s.update? t sub id f = some (s.change t sub fun c => c.modify id f) := by
  simp [update?, h]

end Store

/-! ### Queries -/

/-- `where("mandate_path", "==", m)`; without an explicit order the store answers by document id. -/
def whereMandate (c : Col) (mandatePath : String) : List (String × JobDoc) :=
  (c.entries.filter fun e => e.2.mandatePath = mandatePath).insertionSort fun a b => a.1 ≤ b.1

/-- The documents of a mandate. -/
def ofMandate (mandatePath : String) (d : JobDoc) : Bool := d.mandatePath = mandatePath

/-- `order_by("created_at")`, ties broken by document id. -/
def olderThan (a b : String × JobDoc) : Prop :=
  a.2.createdAt < b.2.createdAt ∨ a.2.createdAt = b.2.createdAt ∧ a.1 ≤ b.1

instance : DecidableRel olderThan := fun a b =>
  inferInstanceAs (Decidable
    (a.2.createdAt < b.2.createdAt ∨ a.2.createdAt = b.2.createdAt ∧ a.1 ≤ b.1))

/-- `where("mandate_path", "==", m).order_by("created_at").limit(1)`. -/
def oldestPending (c : Col) (mandatePath : String) : Option (String × JobDoc) :=
  ((c.entries.filter fun e => e.2.mandatePath = mandatePath).insertionSort olderThan).head?

theorem oldestPending_mem {c : Col} {mandatePath : String} {e : String × JobDoc}
    (h : oldestPending c mandatePath = some e) : e ∈ c.entries ∧ e.2.mandatePath = mandatePath := by
  have hmem := List.mem_of_mem_head? h
  rw [List.mem_insertionSort, List.mem_filter] at hmem
  exact ⟨hmem.1, by simpa using hmem.2⟩

/-! ### Registration -/

/-- The answer of `register_job`. -/
structure RegisterResult where
  shouldStart : Bool
  jobKey : String
  status : String
  location : String
  positionInQueue : ℕ
  deriving DecidableEq

/-- The document built by `_register_job_transaction`. -/
def jobDocument (mandatePath : String) (jobData : JobData) (jobKey jobType : String)
    (shouldStart : Bool) (now : ℕ) : JobDoc where
  jobKey := jobKey
  mandatePath := mandatePath
  jobType := jobType
  payload := jobData
  jobsStatus := extractJobIdsFromPayload jobData jobType
  createdAt := now
  startedAt := if shouldStart then some now else none
  stopRequested := false
  stopRequestedTransactions := []
  stopRequestedAt := none
  lastUpdated := now

/-- `register_job`, the body of its transaction: look for running batches of the mandate, count the
pending ones, write the document to the place that follows. -/
def registerJob (s : Store) (mandatePath : String) (jobData : JobData) (jobKey jobType : String)
    (now : ℕ) : Store × RegisterResult :=
  let runningJobs := whereMandate (s jobType .onProcess) mandatePath
  let pendingCount := (whereMandate (s jobType .pending) mandatePath).length
  let shouldStart := runningJobs.isEmpty
  let location := if shouldStart then Sub.onProcess else Sub.pending
  (s.put jobType location (docId mandatePath jobKey)
      (jobDocument mandatePath jobData jobKey jobType shouldStart now),
    { shouldStart := shouldStart
      jobKey := jobKey
      status := if shouldStart then "running" else "pending"
      location := location.name
      positionInQueue := if shouldStart then 0 else pendingCount + 1 })

/-! ### Status updates -/

/-- Statuses after which a job is done. -/
def terminalStatuses : List String :=
  ["completed", "error", "stopped", "skipped", "pending", "routed"]

/-- The new `jobs_status` map: a terminal status removes the job, any other one is recorded. -/
def applyStatus (jobsStatus : JobsStatus) (jobId newStatus : String) : JobsStatus :=
  if newStatus ∈ terminalStatuses then jobsStatus.erase jobId
  else jobsStatus.set jobId (.text newStatus)

/-- The document a status update names by its batch id. -/
def batchDocId (mandatePath : String) (batchId : Option String) : Option String :=
  match batchId with
  | none => none
  | some b => if b = "" then none else some (docId mandatePath b)

/-- Fast path of `_find_active_doc`: direct lookup by batch id. -/
def lookupBatch (c : Col) (mandatePath : String) (batchId : Option String) : Option (String × JobDoc) :=
  match batchDocId mandatePath batchId with
  | none => none
  | some id => (c.get? id).map fun d => (id, d)

/-- Slow path: the first document of the mandate that lists the job. -/
def scanFor (c : Col) (mandatePath jobId : String) : Option (String × JobDoc) :=
  (whereMandate c mandatePath).find? fun e => jobId ∈ e.2.jobsStatus.keys

/-- `_find_active_doc`. -/
def findActiveDoc (s : Store) (jobType mandatePath jobId : String) (batchId : Option String) :
    Option (String × JobDoc) :=
  match lookupBatch (s jobType .onProcess) mandatePath batchId with
  | some r => some r
  | none => scanFor (s jobType .onProcess) mandatePath jobId

/-- The document as `_promote_next_pending` writes it to `on_process`. -/
def promotedDoc (d : JobDoc) (now : ℕ) : JobDoc :=
  { d with startedAt := some now, lastUpdated := now }

/-- `_promote_next_pending`: the oldest pending batch of the mandate, moved to `on_process`. -/
def promoteNextPending (s : Store) (jobType mandatePath : String) (now : ℕ) : Store × Option JobDoc :=
  match oldestPending (s jobType .pending) mandatePath with
  | none => (s, none)
  | some (id, d) =>
      ((s.put jobType .onProcess (docId mandatePath d.jobKey) (promotedDoc d now)).delete
        jobType .pending id, some d)

/-- The answer of `update_job_status_in_active`. -/
structure UpdateResult where
  updated : Bool
  allDone : Bool
  promotedNext : Bool
  deriving DecidableEq

/-- Write back the edited map. -/
def setStatus (jobsStatus : JobsStatus) (now : ℕ) (d : JobDoc) : JobDoc :=
  { d with jobsStatus := jobsStatus, lastUpdated := now }

/-- `update_job_status_in_active`; the promotion reads the clock again. -/
def updateJobStatusInActive (s : Store) (jobType mandatePath jobId newStatus : String)
    (batchId : Option String) (now promoteNow : ℕ) : Store × UpdateResult :=
  match findActiveDoc s jobType mandatePath jobId batchId with
  | none => (s, ⟨false, false, false⟩)
  | some (id, d) =>
      let jobsStatus := applyStatus d.jobsStatus jobId newStatus
      if jobsStatus.isEmpty then
        let r := promoteNextPending (s.delete jobType .onProcess id) jobType mandatePath promoteNow
        (r.1, ⟨true, true, r.2.isSome⟩)
      else
        match s.update? jobType .onProcess id (setStatus jobsStatus now) with
        | none => (s, ⟨false, false, false⟩)
        | some s' => (s', ⟨true, false, false⟩)

/-! ### Stop requests -/

/-- What the document client raises. -/
inductive ClientError where
  | notFound
  | emptyElement
  | conflictingPath
  deriving DecidableEq

/-- The answer of `request_stop`; `.error e` stands for the text of the exception. -/
structure StopResult where
  success : Bool
  jobKey : String
  location : String
  syntheticStops : List String
  message : Except ClientError String

/-- The elements of the field path `jobs_status.{jid}` below `jobs_status`: the client splits the key at
its dots and refuses an empty element. -/
def fieldPath (jid : String) : Option (List String) :=
  if "" ∈ split jid '.' then none else some (split jid '.')

/-- The client refuses two paths one of which lies below the other. -/
def conflicting (paths : List (List String)) : Bool :=
  paths.any fun p => paths.any fun q => decide (p ≠ q) && p.isPrefixOf q

/-- Write `status` at a path below a nested map. -/
def setNested (status : String) : List String → List (String × StatusVal) → List (String × StatusVal)
  | [], fields => fields
  | [k], fields => Dict.setList k (.text status) fields
  | k :: ks, fields =>
      let child := match Dict.getList k fields with
        | some (.nested g) => g
        | _ => []
      Dict.setList k (.nested (setNested status ks child)) fields

/-- `updates["jobs_status.{jid}"] = "stopping"`, for one parsed path. -/
def setStopping (jobsStatus : JobsStatus) : List String → JobsStatus
  | [] => jobsStatus
  | [k] => jobsStatus.set k (.text "stopping")
  | k :: ks =>
      let child := match jobsStatus.get? k with
        | some (.nested g) => g
        | _ => []
      jobsStatus.set k (.nested (setNested "stopping" ks child))

/-- `firestore.ArrayUnion`. -/
def arrayUnion (xs ys : List String) : List String :=
  ys.foldl (fun acc y => if y ∈ acc then acc else acc ++ [y]) xs

/-- The field update of `_stop_on_process`: mark the listed jobs that the snapshot holds, or the listed
transactions, or the whole batch. -/
def stopOnProcessEdit (snapshot : JobDoc) (jobIdsToStop transactionIds : List String) (now : ℕ) :
    Except ClientError (JobDoc → JobDoc) :=
  if jobIdsToStop ≠ [] then
    match (jobIdsToStop.filter fun jid => jid ∈ snapshot.jobsStatus.keys).mapM fieldPath with
    | none => .error .emptyElement
    | some paths =>
        if conflicting paths then .error .conflictingPath
        else .ok fun d =>
          { d with jobsStatus := paths.foldl setStopping d.jobsStatus, lastUpdated := now }
  else if transactionIds ≠ [] then
    .ok fun d =>
      { d with
        stopRequestedTransactions := arrayUnion d.stopRequestedTransactions transactionIds
        stopRequestedAt := some now
        lastUpdated := now }
  else
    .ok fun d => { d with stopRequested := true, stopRequestedAt := some now, lastUpdated := now }

/-- The loop of `_stop_pending`: the ids that were present, and the jobs left. -/
def removeJobs (jobIdsToStop : List String) (jobsStatus : JobsStatus) : List String × JobsStatus :=
  jobIdsToStop.foldl
    (fun acc jid => if jid ∈ acc.2.keys then (acc.1 ++ [jid], acc.2.erase jid) else acc)
    ([], jobsStatus)

/-- The decision of `_stop_pending`: the synthetic stops, and the map to write back; `none` when the
document is to be deleted. -/
def stopPendingPlan (snapshot : JobDoc) (jobIdsToStop : List String) :
    List String × Option JobsStatus :=
  if jobIdsToStop ≠ [] then
    let r := removeJobs jobIdsToStop snapshot.jobsStatus
    (r.1, if r.2.isEmpty then none else some r.2)
  else (snapshot.jobsStatus.keys, none)

/-- The answer of a stop that raised. -/
def stopFailed (jobKey : String) (e : ClientError) : StopResult :=
  ⟨false, jobKey, "error", [], .error e⟩

/-- The answer of `_stop_on_process`. -/
def stoppedOnProcess (jobKey : String) : StopResult :=
  ⟨true, jobKey, "on_process", [], .ok ("Stop requested for " ++ jobKey ++ " (on_process)")⟩

/-- The answer of `_stop_pending`. -/
def stoppedPending (jobKey : String) (stops : List String) : StopResult :=
  ⟨true, jobKey, "pending", stops,
    .ok ("Stopped " ++ toString stops.length ++ " jobs from pending")⟩

/-- The answer when the key is neither a batch nor a job. -/
def stopNotFound (jobKey : String) : StopResult :=
  ⟨false, jobKey, "not_found", [], .ok ("Job " ++ jobKey ++ " not found in active_jobs")⟩

/-- The write of `_stop_on_process`; the exception handler is `request_stop`'s. -/
def stopOnProcess (s : Store) (jobType id : String) (snapshot : JobDoc) (callKey jobKey : String)
    (jobIdsToStop transactionIds : List String) (now : ℕ) : Store × StopResult :=
  match stopOnProcessEdit snapshot jobIdsToStop transactionIds now with
  | .error e => (s, stopFailed callKey e)
  | .ok edit =>
      match s.update? jobType .onProcess id edit with
      | none => (s, stopFailed callKey .notFound)
      | some s' => (s', stoppedOnProcess jobKey)

/-- The write of `_stop_pending`. -/
def stopPending (s : Store) (jobType id : String) (snapshot : JobDoc) (callKey jobKey : String)
    (jobIdsToStop : List String) (now : ℕ) : Store × StopResult :=
  let plan := stopPendingPlan snapshot jobIdsToStop
  match plan.2 with
  | none => (s.delete jobType .pending id, stoppedPending jobKey plan.1)
  | some jobsStatus =>
      match s.update? jobType .pending id (setStatus jobsStatus now) with
      | none => (s, stopFailed callKey .notFound)
      | some s' => (s', stoppedPending jobKey plan.1)

/-- `ids_to_stop = job_ids_to_stop or [job_id]`. -/
def idsOr (jobIdsToStop : List String) (jobId : String) : List String :=
  if jobIdsToStop = [] then [jobId] else jobIdsToStop

/-- `request_stop`: the running batch with the key, else the pending one, else the batch that lists the key
as one of its jobs (`_stop_by_scanning`). -/
def requestStop (s : Store) (mandatePath jobType jobKey : String)
    (jobIdsToStop transactionIds : List String) (now : ℕ) : Store × StopResult :=
  let id := docId mandatePath jobKey
  match (s jobType .onProcess).get? id with
  | some d => stopOnProcess s jobType id d jobKey jobKey jobIdsToStop transactionIds now
  | none =>
  match (s jobType .pending).get? id with
  | some d => stopPending s jobType id d jobKey jobKey jobIdsToStop now
  | none =>
  match scanFor (s jobType .onProcess) mandatePath jobKey with
  | some (id', d) =>
      stopOnProcess s jobType id' d jobKey d.jobKey (idsOr jobIdsToStop jobKey) transactionIds now
  | none =>
  match scanFor (s jobType .pending) mandatePath jobKey with
  | some (id', d) => stopPending s jobType id' d jobKey d.jobKey (idsOr jobIdsToStop jobKey) now
  | none => (s, stopNotFound jobKey)

end Pinnokio.ActiveJobs
