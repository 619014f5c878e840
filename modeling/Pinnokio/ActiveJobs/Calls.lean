import Pinnokio.Lib.Runs
import Pinnokio.ActiveJobs.Steps

/-!
# What an uninterrupted call does

A status update finds one running document and edits it, or deletes it and promotes the oldest pending batch
(`runUpdate_eq`).  A stop finds one document (`StopCall.target`) and edits it where it is (`runStop_eq`).  The
histories of the queue are proved from these two descriptions; nothing below looks into the calls again.
-/

namespace Pinnokio.ActiveJobs

open Pinnokio.Text Pinnokio.Runs

/-- The store after a call. -/
def applyCall (s : Store) (c : Call) : Store := (runCall s c).1

/-! ### Status updates -/

/-- The running document a status update finds. -/
def UpdateCall.found (c : UpdateCall) (s : Store) : Option (String × JobDoc) :=
  findActiveDoc s c.jobType c.mandatePath c.jobId c.batchId

/-- The update is about the last open job of the document. -/
def UpdateCall.finishes (c : UpdateCall) (d : JobDoc) : Bool := (c.newMap d).isEmpty

/-- The pending document that a status update promotes. -/
def UpdateCall.promotes (c : UpdateCall) (s : Store) : Option (String × JobDoc) :=
  match c.found s with
  | none => none
  | some (_, d) => if c.finishes d then oldestPending (s c.jobType .pending) c.mandatePath else none

/-- The store after the promotion of a pending document. -/
def promotion (s : Store) (c : UpdateCall) (e : String × JobDoc) : Store :=
  (s.put c.jobType .onProcess (docId c.mandatePath e.2.jobKey) (promotedDoc e.2 c.promoteNow)).delete
    c.jobType .pending e.1

theorem scanFor_get? {c : Col} {mandatePath jobId : String} {e : String × JobDoc}
    (h : scanFor c mandatePath jobId = some e) : c.get? e.1 = some e.2 ∧ jobId ∈ e.2.jobsStatus.keys := by
  have hmem := List.mem_of_find?_eq_some h
  rw [whereMandate, List.mem_insertionSort, List.mem_filter] at hmem
  exact ⟨Dict.mem_entries_iff.mp hmem.1, by simpa using List.find?_some h⟩

theorem lookupBatch_get? {c : Col} {mandatePath : String} {batchId : Option String} {e : String × JobDoc}
    (h : lookupBatch c mandatePath batchId = some e) :
    c.get? e.1 = some e.2 ∧ batchDocId mandatePath batchId = some e.1 := by
  unfold lookupBatch at h
  split at h
  · cases h
  · next id hid =>
    obtain ⟨d, hd, rfl⟩ := Option.map_eq_some_iff.mp h
    exact ⟨hd, hid⟩

/-- A document that is found is there, and is named by the update or lists its job. -/
theorem UpdateCall.found_get? {c : UpdateCall} {s : Store} {e : String × JobDoc} (h : c.found s = some e) :
    (s c.jobType .onProcess).get? e.1 = some e.2 ∧
      (batchDocId c.mandatePath c.batchId = some e.1 ∨ c.jobId ∈ e.2.jobsStatus.keys) := by
  unfold UpdateCall.found findActiveDoc at h
  split at h
  · next r hr =>
    cases h
    exact ⟨(lookupBatch_get? hr).1, Or.inl (lookupBatch_get? hr).2⟩
  · exact ⟨(scanFor_get? h).1, Or.inr (scanFor_get? h).2⟩

/-- **A status update**, by what it finds. -/
theorem runUpdate_eq (s : Store) (c : UpdateCall) : applyCall s (.update c) =
    match c.found s with
    | none => s
    | some (id, d) =>
        if c.finishes d then
          match oldestPending (s c.jobType .pending) c.mandatePath with
          | none => s.delete c.jobType .onProcess id
          | some e => promotion (s.delete c.jobType .onProcess id) c e
        else s.change c.jobType .onProcess fun col => col.modify id (setStatus (c.newMap d) c.now) := by
  unfold applyCall runCall updateJobStatusInActive
  cases hf : c.found s with
  | none =>
      rw [UpdateCall.found] at hf
      simp only [hf]
  | some e =>
      have hget := (UpdateCall.found_get? hf).1
      rw [UpdateCall.found] at hf
      simp only [hf, UpdateCall.finishes, UpdateCall.newMap]
      by_cases he : (applyStatus e.2.jobsStatus c.jobId c.newStatus).isEmpty = true
      · simp only [he, if_true, promoteNextPending, Store.delete, Store.change_onProcess_pending]
        cases oldestPending (s c.jobType .pending) c.mandatePath with
        | none => rfl
        | some e => rfl
      · simp only [he, Bool.false_eq_true, if_false, Store.update?_of_get? _ hget]

/-! ### Stop requests -/

/-- The document a stop finds, and the jobs it is to stop there. -/
structure StopTarget where
  sub : Sub
  id : String
  doc : JobDoc
  jobKey : String
  ids : List String

/-- The batch with the key, running or pending, else the batch that lists the key as one of its jobs. -/
def StopCall.target (c : StopCall) (s : Store) : Option StopTarget :=
  let id := docId c.mandatePath c.jobKey
  match (s c.jobType .onProcess).get? id with
  | some d => some ⟨.onProcess, id, d, c.jobKey, c.jobIdsToStop⟩
  | none =>
  match (s c.jobType .pending).get? id with
  | some d => some ⟨.pending, id, d, c.jobKey, c.jobIdsToStop⟩
  | none =>
  match scanFor (s c.jobType .onProcess) c.mandatePath c.jobKey with
  | some (id', d) => some ⟨.onProcess, id', d, d.jobKey, idsOr c.jobIdsToStop c.jobKey⟩
  | none =>
  match scanFor (s c.jobType .pending) c.mandatePath c.jobKey with
  | some (id', d) => some ⟨.pending, id', d, d.jobKey, idsOr c.jobIdsToStop c.jobKey⟩
  | none => none

theorem StopCall.target_get? {c : StopCall} {s : Store} {x : StopTarget} (h : c.target s = some x) :
    (s c.jobType x.sub).get? x.id = some x.doc := by
  unfold StopCall.target at h
  dsimp only at h
  split at h
  · next d hd =>
    cases h
    exact hd
  split at h
  · next d hd =>
    cases h
    exact hd
  split at h
  · next id' d hs =>
    cases h
    exact (scanFor_get? hs).1
  split at h
  · next id' d hs =>
    cases h
    exact (scanFor_get? hs).1
  · cases h

/-- The answer and the store of a stop, by what it finds. -/
theorem requestStop_eq (s : Store) (c : StopCall) :
    requestStop s c.mandatePath c.jobType c.jobKey c.jobIdsToStop c.transactionIds c.now =
      match c.target s with
      | none => (s, stopNotFound c.jobKey)
      | some ⟨.onProcess, id, d, jobKey, ids⟩ =>
          stopOnProcess s c.jobType id d c.jobKey jobKey ids c.transactionIds c.now
      | some ⟨.pending, id, d, jobKey, ids⟩ => stopPending s c.jobType id d c.jobKey jobKey ids c.now := by
  unfold requestStop StopCall.target
  dsimp only
  cases (s c.jobType .onProcess).get? (docId c.mandatePath c.jobKey) with
  | some d => rfl
  | none =>
  cases (s c.jobType .pending).get? (docId c.mandatePath c.jobKey) with
  | some d => rfl
  | none =>
  cases scanFor (s c.jobType .onProcess) c.mandatePath c.jobKey with
  | some e => rfl
  | none =>
  cases scanFor (s c.jobType .pending) c.mandatePath c.jobKey with
  | some e => rfl
  | none => rfl

/-- **A stop**, by what it finds. -/
theorem runStop_eq (s : Store) (c : StopCall) : applyCall s (.stop c) =
    match c.target s with
    | none => s
    | some ⟨.onProcess, id, d, _, ids⟩ =>
        match stopOnProcessEdit d ids c.transactionIds c.now with
        | .error _ => s
        | .ok edit => s.change c.jobType .onProcess fun col => col.modify id edit
    | some ⟨.pending, id, d, _, ids⟩ =>
        match (stopPendingPlan d ids).2 with
        | none => s.delete c.jobType .pending id
        | some js => s.change c.jobType .pending fun col => col.modify id (setStatus js c.now) := by
  rw [applyCall, runCall]
  simp only [requestStop_eq]
  cases ht : c.target s with
  | none => rfl
  | some x =>
      obtain ⟨sub, id, d, jobKey, ids⟩ := x
      have hget := StopCall.target_get? ht
      cases sub with
      | onProcess =>
          simp only [stopOnProcess]
          cases stopOnProcessEdit d ids c.transactionIds c.now with
          | error e => rfl
          | ok edit => simp only [Store.update?_of_get? edit hget]
      | pending =>
          simp only [stopPending]
          cases (stopPendingPlan d ids).2 with
          | none => rfl
          | some js => simp only [Store.update?_of_get? (setStatus js c.now) hget]

/-! ### What a stop leaves in the map -/

theorem mem_keys_setStopping (js : JobsStatus) (path : List String) (k : String) :
    k ∈ (setStopping js path).keys ↔ k ∈ js.keys ∨ path.head? = some k := by
  rcases path with _ | ⟨x, _ | ⟨y, ys⟩⟩
  · simp [setStopping]
  · simp only [setStopping, Dict.mem_keys_set, List.head?_cons, Option.some.injEq]
    tauto
  · simp only [setStopping, Dict.mem_keys_set, List.head?_cons, Option.some.injEq]
    tauto

theorem mem_keys_foldl_setStopping (js : JobsStatus) (paths : List (List String)) (k : String) :
    k ∈ (paths.foldl setStopping js).keys ↔ k ∈ js.keys ∨ k ∈ paths.filterMap List.head? := by
  induction paths generalizing js with
  | nil => simp
  | cons path paths ih =>
      rw [List.foldl_cons, ih, mem_keys_setStopping]
      simp only [List.mem_filterMap, List.mem_cons, exists_eq_or_imp]
      tauto

/-- The jobs left after a stop of a pending batch. -/
theorem mem_keys_removeJobs (ids : List String) (js : JobsStatus) (k : String) :
    k ∈ (removeJobs ids js).2.keys ↔ k ∈ js.keys ∧ k ∉ ids := by
  suffices h : ∀ acc : List String, k ∈ (ids.foldl (fun (acc : List String × JobsStatus) jid =>
      if jid ∈ acc.2.keys then (acc.1 ++ [jid], acc.2.erase jid) else acc) (acc, js)).2.keys ↔
        k ∈ js.keys ∧ k ∉ ids from h []
  intro acc
  induction ids generalizing acc js with
  | nil => simp
  | cons jid ids ih =>
      rw [List.foldl_cons]
      by_cases hj : jid ∈ js.keys
      · rw [if_pos hj, ih, Dict.mem_keys_erase, List.mem_cons]
        tauto
      · rw [if_neg hj, ih, List.mem_cons]
        have : k ∈ js.keys → k ≠ jid := fun hk he => hj (he ▸ hk)
        tauto

/-! ### Calls of the router -/

/-- The registration of a batch of files. -/
def routerFiles (jobKey : String) (files : List String) (now : ℕ) : RegisterCall where
  mandatePath := "clients/u/mandates/m"
  jobData :=
    { fields := ∅
      jobsData := files.map fun file => ⟨Dict.ofList [("job_id", .str file)], []⟩
      items := [] }
  jobKey := jobKey
  jobType := "router"
  now := now

/-- A status message about a file of a batch, with its batch id. -/
def fileStatus (jobKey file status : String) : UpdateCall where
  jobType := "router"
  mandatePath := "clients/u/mandates/m"
  jobId := file
  newStatus := status
  batchId := some jobKey
  now := 2
  promoteNow := 2

/-- The stop of some files of a batch. -/
def fileStop (jobKey : String) (files : List String) : StopCall where
  mandatePath := "clients/u/mandates/m"
  jobType := "router"
  jobKey := jobKey
  jobIdsToStop := files
  transactionIds := []
  now := 2

end Pinnokio.ActiveJobs
