import Pinnokio.Lib.Interleaving
import Pinnokio.ActiveJobs.Manager

/-!
# Queue calls as sequences of atomic store operations

Several workers and web requests call the queue manager at the same time.  Only a registration is one
transaction; every other read, `set`, `update` and `delete` is its own atomic operation, and between two of
them the calls keep what they have read in local variables.  `Pc` is that local state: which operation comes
next, and the snapshot it will act on.  `next` performs it.

The model is tied to the sequential one by `solo_call`: a call that no other call interrupts computes exactly
`runCall`.
-/

namespace Pinnokio.ActiveJobs

open Pinnokio.Interleaving

/-- Arguments of `register_job`, with the clock value it reads. -/
structure RegisterCall where
  mandatePath : String
  jobData : JobData
  jobKey : String
  jobType : String
  now : ℕ

/-- Arguments of `update_job_status_in_active`, with the two clock values it reads. -/
structure UpdateCall where
  jobType : String
  mandatePath : String
  jobId : String
  newStatus : String
  batchId : Option String
  now : ℕ
  promoteNow : ℕ

/-- Arguments of `request_stop`, with the clock value it reads. -/
structure StopCall where
  mandatePath : String
  jobType : String
  jobKey : String
  jobIdsToStop : List String
  transactionIds : List String
  now : ℕ

/-- A call of the queue manager. -/
inductive Call where
  | register (c : RegisterCall)
  | update (c : UpdateCall)
  | stop (c : StopCall)

/-- The registrations among the calls. -/
def registrations (calls : List Call) : List RegisterCall :=
  calls.filterMap fun c =>
    match c with
    | .register r => some r
    | _ => none

/-- The keys in the order of their registration. -/
def registeredKeys (calls : List Call) : List String := (registrations calls).map RegisterCall.jobKey

/-- What a call returns. -/
inductive Answer where
  | registered (r : RegisterResult)
  | updated (r : UpdateResult)
  | stopped (r : StopResult)

/-- A call executed without interruption. -/
def runCall (s : Store) : Call → Store × Answer
  | .register c =>
      let r := registerJob s c.mandatePath c.jobData c.jobKey c.jobType c.now
      (r.1, .registered r.2)
  | .update c =>
      let r := updateJobStatusInActive s c.jobType c.mandatePath c.jobId c.newStatus c.batchId c.now
        c.promoteNow
      (r.1, .updated r.2)
  | .stop c =>
      let r := requestStop s c.mandatePath c.jobType c.jobKey c.jobIdsToStop c.transactionIds c.now
      (r.1, .stopped r.2)

/-- Local state of a call: the next store operation, with the snapshots read so far. -/
inductive Pc where
  | call (c : Call)
  | updateScan (c : UpdateCall)
  | updateWrite (c : UpdateCall) (id : String) (d : JobDoc)
  | promoteQuery (c : UpdateCall)
  | promoteSet (c : UpdateCall) (id : String) (d : JobDoc)
  | promoteDelete (c : UpdateCall) (id : String)
  | stopGetPending (c : StopCall)
  | stopScanOnProcess (c : StopCall)
  | stopScanPending (c : StopCall)
  | stopWriteOnProcess (c : StopCall) (id : String) (d : JobDoc) (jobKey : String) (ids : List String)
  | stopWritePending (c : StopCall) (id : String) (d : JobDoc) (jobKey : String) (ids : List String)
  | done (a : Answer)

/-- The map a status update is about to write back, computed from its snapshot. -/
def UpdateCall.newMap (c : UpdateCall) (d : JobDoc) : JobsStatus :=
  applyStatus d.jobsStatus c.jobId c.newStatus

/-- After the scan of `_find_active_doc`. -/
def afterScan (c : UpdateCall) : Option (String × JobDoc) → Pc
  | none => .done (.updated ⟨false, false, false⟩)
  | some (id, d) => .updateWrite c id d

/-- The next atomic operation of a call. -/
def next (s : Store) : Pc → Option (Store × Pc)
  | .call (.register c) =>
      let r := registerJob s c.mandatePath c.jobData c.jobKey c.jobType c.now
      some (r.1, .done (.registered r.2))
  | .call (.update c) =>
      match batchDocId c.mandatePath c.batchId with
      | none => some (s, afterScan c (scanFor (s c.jobType .onProcess) c.mandatePath c.jobId))
      | some id =>
          match (s c.jobType .onProcess).get? id with
          | some d => some (s, .updateWrite c id d)
          | none => some (s, .updateScan c)
  | .updateScan c => some (s, afterScan c (scanFor (s c.jobType .onProcess) c.mandatePath c.jobId))
  | .updateWrite c id d =>
      if (c.newMap d).isEmpty then some (s.delete c.jobType .onProcess id, .promoteQuery c)
      else
        match s.update? c.jobType .onProcess id (setStatus (c.newMap d) c.now) with
        | none => some (s, .done (.updated ⟨false, false, false⟩))
        | some s' => some (s', .done (.updated ⟨true, false, false⟩))
  | .promoteQuery c =>
      match oldestPending (s c.jobType .pending) c.mandatePath with
      | none => some (s, .done (.updated ⟨true, true, false⟩))
      | some (id, d) => some (s, .promoteSet c id d)
  | .promoteSet c id d =>
      some (s.put c.jobType .onProcess (docId c.mandatePath d.jobKey) (promotedDoc d c.promoteNow),
        .promoteDelete c id)
  | .promoteDelete c id =>
      some (s.delete c.jobType .pending id, .done (.updated ⟨true, true, true⟩))
  | .call (.stop c) =>
      match (s c.jobType .onProcess).get? (docId c.mandatePath c.jobKey) with
      | some d => some (s, .stopWriteOnProcess c (docId c.mandatePath c.jobKey) d c.jobKey c.jobIdsToStop)
      | none => some (s, .stopGetPending c)
  | .stopGetPending c =>
      match (s c.jobType .pending).get? (docId c.mandatePath c.jobKey) with
      | some d => some (s, .stopWritePending c (docId c.mandatePath c.jobKey) d c.jobKey c.jobIdsToStop)
      | none => some (s, .stopScanOnProcess c)
  | .stopScanOnProcess c =>
      match scanFor (s c.jobType .onProcess) c.mandatePath c.jobKey with
      | some (id, d) =>
          some (s, .stopWriteOnProcess c id d d.jobKey (idsOr c.jobIdsToStop c.jobKey))
      | none => some (s, .stopScanPending c)
  | .stopScanPending c =>
      match scanFor (s c.jobType .pending) c.mandatePath c.jobKey with
      | some (id, d) => some (s, .stopWritePending c id d d.jobKey (idsOr c.jobIdsToStop c.jobKey))
      | none => some (s, .done (.stopped (stopNotFound c.jobKey)))
  | .stopWriteOnProcess c id d jobKey ids =>
      let r := stopOnProcess s c.jobType id d c.jobKey jobKey ids c.transactionIds c.now
      some (r.1, .done (.stopped r.2))
  | .stopWritePending c id d jobKey ids =>
      let r := stopPending s c.jobType id d c.jobKey jobKey ids c.now
      some (r.1, .done (.stopped r.2))
  | .done _ => none

/-- The calls before any of them has begun. -/
def start (s : Store) (calls : List Call) : Pool Store Pc := ⟨s, calls.map Pc.call⟩

/-- The call has returned. -/
def Pc.returned : Pc → Bool
  | .done _ => true
  | _ => false

/-- Everything an atomic operation can do, one constructor for each way it can end. -/
inductive Moves (s : Store) : Pc → Store → Pc → Prop where
  | register (c : RegisterCall) :
      Moves s (.call (.register c))
        (registerJob s c.mandatePath c.jobData c.jobKey c.jobType c.now).1
        (.done (.registered (registerJob s c.mandatePath c.jobData c.jobKey c.jobType c.now).2))
  | lookupHit {c : UpdateCall} {id : String} {d : JobDoc}
      (hb : batchDocId c.mandatePath c.batchId = some id)
      (hg : (s c.jobType .onProcess).get? id = some d) :
      Moves s (.call (.update c)) s (.updateWrite c id d)
  | lookupMiss {c : UpdateCall} {id : String} (hb : batchDocId c.mandatePath c.batchId = some id)
      (hg : (s c.jobType .onProcess).get? id = none) :
      Moves s (.call (.update c)) s (.updateScan c)
  | scanFirst {c : UpdateCall} (hb : batchDocId c.mandatePath c.batchId = none) :
      Moves s (.call (.update c)) s
        (afterScan c (scanFor (s c.jobType .onProcess) c.mandatePath c.jobId))
  | scan (c : UpdateCall) :
      Moves s (.updateScan c) s
        (afterScan c (scanFor (s c.jobType .onProcess) c.mandatePath c.jobId))
  | finish {c : UpdateCall} (id : String) {d : JobDoc} (he : (c.newMap d).isEmpty = true) :
      Moves s (.updateWrite c id d) (s.delete c.jobType .onProcess id) (.promoteQuery c)
  | write {c : UpdateCall} {id : String} {d : JobDoc} {s' : Store} (he : (c.newMap d).isEmpty = false)
      (hu : s.update? c.jobType .onProcess id (setStatus (c.newMap d) c.now) = some s') :
      Moves s (.updateWrite c id d) s' (.done (.updated ⟨true, false, false⟩))
  | writeLost {c : UpdateCall} {id : String} {d : JobDoc} (he : (c.newMap d).isEmpty = false)
      (hu : s.update? c.jobType .onProcess id (setStatus (c.newMap d) c.now) = none) :
      Moves s (.updateWrite c id d) s (.done (.updated ⟨false, false, false⟩))
  | promoteNone {c : UpdateCall} (hq : oldestPending (s c.jobType .pending) c.mandatePath = none) :
      Moves s (.promoteQuery c) s (.done (.updated ⟨true, true, false⟩))
  | promoteFound {c : UpdateCall} {id : String} {d : JobDoc}
      (hq : oldestPending (s c.jobType .pending) c.mandatePath = some (id, d)) :
      Moves s (.promoteQuery c) s (.promoteSet c id d)
  | promoteSet (c : UpdateCall) (id : String) (d : JobDoc) :
      Moves s (.promoteSet c id d)
        (s.put c.jobType .onProcess (docId c.mandatePath d.jobKey) (promotedDoc d c.promoteNow))
        (.promoteDelete c id)
  | promoteDelete (c : UpdateCall) (id : String) :
      Moves s (.promoteDelete c id) (s.delete c.jobType .pending id)
        (.done (.updated ⟨true, true, true⟩))
  | stopHit {c : StopCall} {d : JobDoc}
      (hg : (s c.jobType .onProcess).get? (docId c.mandatePath c.jobKey) = some d) :
      Moves s (.call (.stop c)) s
        (.stopWriteOnProcess c (docId c.mandatePath c.jobKey) d c.jobKey c.jobIdsToStop)
  | stopMiss {c : StopCall}
      (hg : (s c.jobType .onProcess).get? (docId c.mandatePath c.jobKey) = none) :
      Moves s (.call (.stop c)) s (.stopGetPending c)
  | stopPendingHit {c : StopCall} {d : JobDoc}
      (hg : (s c.jobType .pending).get? (docId c.mandatePath c.jobKey) = some d) :
      Moves s (.stopGetPending c) s
        (.stopWritePending c (docId c.mandatePath c.jobKey) d c.jobKey c.jobIdsToStop)
  | stopPendingMiss {c : StopCall}
      (hg : (s c.jobType .pending).get? (docId c.mandatePath c.jobKey) = none) :
      Moves s (.stopGetPending c) s (.stopScanOnProcess c)
  | stopScanHit {c : StopCall} {id : String} {d : JobDoc}
      (hs : scanFor (s c.jobType .onProcess) c.mandatePath c.jobKey = some (id, d)) :
      Moves s (.stopScanOnProcess c) s
        (.stopWriteOnProcess c id d d.jobKey (idsOr c.jobIdsToStop c.jobKey))
  | stopScanMiss {c : StopCall}
      (hs : scanFor (s c.jobType .onProcess) c.mandatePath c.jobKey = none) :
      Moves s (.stopScanOnProcess c) s (.stopScanPending c)
  | stopScanPendingHit {c : StopCall} {id : String} {d : JobDoc}
      (hs : scanFor (s c.jobType .pending) c.mandatePath c.jobKey = some (id, d)) :
      Moves s (.stopScanPending c) s
        (.stopWritePending c id d d.jobKey (idsOr c.jobIdsToStop c.jobKey))
  | stopNotFound {c : StopCall}
      (hs : scanFor (s c.jobType .pending) c.mandatePath c.jobKey = none) :
      Moves s (.stopScanPending c) s (.done (.stopped (stopNotFound c.jobKey)))
  | stopWriteOnProcess (c : StopCall) (id : String) (d : JobDoc) (k : String) (ids : List String) :
      Moves s (.stopWriteOnProcess c id d k ids)
        (stopOnProcess s c.jobType id d c.jobKey k ids c.transactionIds c.now).1
        (.done (.stopped (stopOnProcess s c.jobType id d c.jobKey k ids c.transactionIds c.now).2))
  | stopWritePending (c : StopCall) (id : String) (d : JobDoc) (k : String) (ids : List String) :
      Moves s (.stopWritePending c id d k ids)
        (stopPending s c.jobType id d c.jobKey k ids c.now).1
        (.done (.stopped (stopPending s c.jobType id d c.jobKey k ids c.now).2))

/-- The inversion lemma of `next`. -/
theorem next_moves {s s' : Store} {l l' : Pc} (h : next s l = some (s', l')) : Moves s l s' l' := by
  cases l with
  | call c =>
      cases c with
      | register c => cases h; exact .register c
      | update c =>
          simp only [next] at h
          split at h
          · rename_i hb; cases h; exact .scanFirst hb
          · rename_i id hb
            split at h
            · rename_i d hg; cases h; exact .lookupHit hb hg
            · rename_i hg; cases h; exact .lookupMiss hb hg
      | stop c =>
          simp only [next] at h
          split at h
          · rename_i d hg; cases h; exact .stopHit hg
          · rename_i hg; cases h; exact .stopMiss hg
  | updateScan c => cases h; exact .scan c
  | updateWrite c id d =>
      simp only [next] at h
      split at h
      · rename_i he; cases h; exact .finish id he
      · rename_i he
        split at h
        · rename_i hu; cases h; exact .writeLost (by simpa using he) hu
        · rename_i s₁ hu; cases h; exact .write (by simpa using he) hu
  | promoteQuery c =>
      simp only [next] at h
      split at h
      · rename_i hq; cases h; exact .promoteNone hq
      · rename_i id d hq; cases h; exact .promoteFound hq
  | promoteSet c id d => cases h; exact .promoteSet c id d
  | promoteDelete c id => cases h; exact .promoteDelete c id
  | stopGetPending c =>
      simp only [next] at h
      split at h
      · rename_i d hg; cases h; exact .stopPendingHit hg
      · rename_i hg; cases h; exact .stopPendingMiss hg
  | stopScanOnProcess c =>
      simp only [next] at h
      split at h
      · rename_i id d hs; cases h; exact .stopScanHit hs
      · rename_i hs; cases h; exact .stopScanMiss hs
  | stopScanPending c =>
      simp only [next] at h
      split at h
      · rename_i id d hs; cases h; exact .stopScanPendingHit hs
      · rename_i hs; cases h; exact .stopNotFound hs
  | stopWriteOnProcess c id d k ids => cases h; exact .stopWriteOnProcess c id d k ids
  | stopWritePending c id d k ids => cases h; exact .stopWritePending c id d k ids
  | done a => cases h

/-! ### A call that runs alone is the sequential operation -/

theorem solo_done (n : ℕ) (s : Store) (a : Answer) : solo next n s (.done a) = (s, .done a) := by
  cases n <;> rfl

theorem solo_promoteQuery (n : ℕ) (s : Store) (c : UpdateCall) :
    solo next (n + 3) s (.promoteQuery c) =
      ((promoteNextPending s c.jobType c.mandatePath c.promoteNow).1,
        .done (.updated ⟨true, true,
          (promoteNextPending s c.jobType c.mandatePath c.promoteNow).2.isSome⟩)) := by
  cases h : oldestPending (s c.jobType .pending) c.mandatePath with
  | none => simp [solo, next, h, promoteNextPending]
  | some e =>
      obtain ⟨id, d⟩ := e
      simp [solo, next, h, promoteNextPending, solo_done]

/-- From the write on, an update finishes as the sequential operation does on the document it found. -/
theorem solo_updateWrite (n : ℕ) (s : Store) (c : UpdateCall) (id : String) (d : JobDoc)
    (h : findActiveDoc s c.jobType c.mandatePath c.jobId c.batchId = some (id, d)) :
    solo next (n + 4) s (.updateWrite c id d) =
      ((runCall s (.update c)).1, .done (runCall s (.update c)).2) := by
  by_cases he : (c.newMap d).isEmpty = true
  · have hw : next s (.updateWrite c id d) = some (s.delete c.jobType .onProcess id, .promoteQuery c) := by
      simp [next, he]
    rw [solo, hw]
    simp only [solo_promoteQuery, runCall, updateJobStatusInActive, h]
    simp only [UpdateCall.newMap] at he
    simp [he]
  · simp only [solo, next, runCall, updateJobStatusInActive, h]
    simp only [UpdateCall.newMap] at he ⊢
    cases hu : s.update? c.jobType .onProcess id (setStatus (applyStatus d.jobsStatus c.jobId c.newStatus) c.now) <;>
      simp [he]

theorem solo_updateScan (n : ℕ) (s : Store) (c : UpdateCall)
    (h : lookupBatch (s c.jobType .onProcess) c.mandatePath c.batchId = none) :
    solo next (n + 4) s (afterScan c (scanFor (s c.jobType .onProcess) c.mandatePath c.jobId)) =
      ((runCall s (.update c)).1, .done (runCall s (.update c)).2) := by
  have hf : findActiveDoc s c.jobType c.mandatePath c.jobId c.batchId
      = scanFor (s c.jobType .onProcess) c.mandatePath c.jobId := by
    simp [findActiveDoc, h]
  cases hs : scanFor (s c.jobType .onProcess) c.mandatePath c.jobId with
  | none =>
      rw [hs] at hf
      simp [afterScan, solo_done, runCall, updateJobStatusInActive, hf]
  | some e => exact solo_updateWrite n s c e.1 e.2 (hf.trans hs)

theorem solo_update (s : Store) (c : UpdateCall) :
    solo next 6 s (.call (.update c)) =
      ((runCall s (.update c)).1, .done (runCall s (.update c)).2) := by
  rw [solo, next]
  cases hb : batchDocId c.mandatePath c.batchId with
  | none => exact solo_updateScan 1 s c (by simp [lookupBatch, hb])
  | some id =>
      dsimp only
      cases hg : (s c.jobType .onProcess).get? id with
      | none =>
          show solo next 5 s (.updateScan c) = _
          rw [solo, next]
          exact solo_updateScan 0 s c (by simp [lookupBatch, hb, hg])
      | some d => exact solo_updateWrite 1 s c id d (by simp [findActiveDoc, lookupBatch, hb, hg])

theorem solo_stop (s : Store) (c : StopCall) :
    solo next 6 s (.call (.stop c)) = ((runCall s (.stop c)).1, .done (runCall s (.stop c)).2) := by
  simp only [runCall, requestStop]
  rw [solo, next]
  cases h₁ : (s c.jobType .onProcess).get? (docId c.mandatePath c.jobKey) with
  | some d => rfl
  | none =>
      show solo next 5 s (.stopGetPending c) = _
      rw [solo, next]
      cases h₂ : (s c.jobType .pending).get? (docId c.mandatePath c.jobKey) with
      | some d => rfl
      | none =>
          show solo next 4 s (.stopScanOnProcess c) = _
          rw [solo, next]
          cases h₃ : scanFor (s c.jobType .onProcess) c.mandatePath c.jobKey with
          | some e => rfl
          | none =>
              show solo next 3 s (.stopScanPending c) = _
              rw [solo, next]
              cases h₄ : scanFor (s c.jobType .pending) c.mandatePath c.jobKey with
              | some e => rfl
              | none => rfl

/-- **The two models agree.**  Six atomic operations are enough for any call, and without interference they
compute the sequential operation and its answer. -/
theorem solo_call (s : Store) (c : Call) :
    solo next 6 s (.call c) = ((runCall s c).1, .done (runCall s c).2) := by
  cases c with
  | register c => rfl
  | update c => exact solo_update s c
  | stop c => exact solo_stop s c

end Pinnokio.ActiveJobs
