import Pinnokio.ActiveJobs.Calls

/-!
# When a finished job is listed again

A terminal status takes a job out of the `jobs_status` map of its batch.  The map is written by later calls too,
and not all of them ask whether the job is still there.

* `Reopens` — the calls that put a job back into the map of a running document, by what they find;
* `not_mem_runningJobs_applyCall` — no other call does;
* `finished_stays_finished_iff` — so a finished job stays out of the map exactly along the sequences without such
  a call.
-/

namespace Pinnokio.ActiveJobs

open Pinnokio.Runs

/-- The jobs listed by the running document `id`; none when there is no such document. -/
def runningJobs (s : Store) (t id : String) : List String :=
  ((s t .onProcess).get? id).elim [] fun d => d.jobsStatus.keys

theorem runningJobs_of_get? {s : Store} {t id : String} {d : JobDoc}
    (h : (s t .onProcess).get? id = some d) : runningJobs s t id = d.jobsStatus.keys := by
  simp [runningJobs, h]

/-- Another job type, or the other subcollection, is untouched by a change. -/
theorem runningJobs_change_other (s : Store) {t t' : String} {sub : Sub} (f : Col → Col) (id : String)
    (h : ¬(t = t' ∧ sub = .onProcess)) : runningJobs (s.change t' sub f) t id = runningJobs s t id := by
  unfold runningJobs
  rw [Store.change_other]
  intro h'
  obtain ⟨rfl, rfl⟩ := h'
  exact h ⟨rfl, rfl⟩

theorem runningJobs_put (s : Store) (t id id' : String) (doc : JobDoc) :
    runningJobs (s.put t .onProcess id' doc) t id = if id = id' then doc.jobsStatus.keys else runningJobs s t id := by
  unfold runningJobs Store.put
  rw [Store.change_same, Dict.get?_set]
  split <;> rfl

theorem runningJobs_delete (s : Store) (t id id' : String) :
    runningJobs (s.delete t .onProcess id') t id = if id = id' then [] else runningJobs s t id := by
  unfold runningJobs Store.delete
  rw [Store.change_same, Dict.get?_erase]
  split <;> rfl

theorem runningJobs_modify (s : Store) (t id : String) {id' : String} {d : JobDoc} (f : JobDoc → JobDoc)
    (h : (s t .onProcess).get? id' = some d) :
    runningJobs (s.change t .onProcess fun col => col.modify id' f) t id =
      if id = id' then (f d).jobsStatus.keys else runningJobs s t id := by
  unfold runningJobs
  rw [Store.change_same, Dict.get?_modify]
  split
  · next hid =>
    subst hid
    simp [h]
  · rfl

/-! ### The calls that list a job -/

/-- The promotion of a status update writes the document `id`, and the promoted batch lists the job. -/
def UpdateCall.BringsBack (c : UpdateCall) (s : Store) (id j : String) : Prop :=
  ∃ e, c.promotes s = some e ∧ docId c.mandatePath e.2.jobKey = id ∧ j ∈ e.2.jobsStatus.keys

/-- The field paths a stop writes below `jobs_status`. -/
def stopPaths (d : JobDoc) (ids : List String) : List (List String) :=
  match (ids.filter fun jid => jid ∈ d.jobsStatus.keys).mapM fieldPath with
  | none => []
  | some paths => if conflicting paths then [] else paths

/-- The calls after which the running document `id` lists a job that it has not listed before. -/
def Reopens (t id j : String) (s : Store) : Call → Prop
  | .register c =>
      c.jobType = t ∧ docId c.mandatePath c.jobKey = id ∧
        (whereMandate (s t .onProcess) c.mandatePath).isEmpty = true ∧
        j ∈ (extractJobIdsFromPayload c.jobData t).keys
  | .update c =>
      c.jobType = t ∧
        (c.BringsBack s id j ∨
          c.jobId = j ∧ c.newStatus ∉ terminalStatuses ∧ ∃ d, c.found s = some (id, d))
  | .stop c =>
      c.jobType = t ∧
        ∃ x, c.target s = some x ∧ x.sub = .onProcess ∧ x.id = id ∧
          j ∈ (stopPaths x.doc x.ids).filterMap List.head?

theorem mem_keys_applyStatus (js : JobsStatus) (jobId newStatus j : String) :
    j ∈ (applyStatus js jobId newStatus).keys ↔
      if newStatus ∈ terminalStatuses then j ≠ jobId ∧ j ∈ js.keys else j = jobId ∨ j ∈ js.keys := by
  unfold applyStatus
  split
  · exact Dict.mem_keys_erase
  · exact Dict.mem_keys_set

theorem mem_keys_stopOnProcessEdit {d : JobDoc} {ids txs : List String} {now : ℕ} {edit : JobDoc → JobDoc}
    (h : stopOnProcessEdit d ids txs now = .ok edit) (j : String) :
    j ∈ (edit d).jobsStatus.keys ↔ j ∈ d.jobsStatus.keys ∨ j ∈ (stopPaths d ids).filterMap List.head? := by
  unfold stopOnProcessEdit at h
  unfold stopPaths
  split at h
  · cases hp : (ids.filter fun jid => jid ∈ d.jobsStatus.keys).mapM fieldPath with
    | none =>
        rw [hp] at h
        cases h
    | some paths =>
        rw [hp] at h
        dsimp only at h ⊢
        split at h
        · cases h
        · next hc =>
          cases h
          simp only [hc, Bool.false_eq_true, if_false]
          exact mem_keys_foldl_setStopping _ _ _
  · next hne =>
    have hids : ids = [] := not_not.mp hne
    subst hids
    split at h
    · cases h
      simp
    · cases h
      simp

/-- A stop that raises has no path to write. -/
theorem stopPaths_of_error {d : JobDoc} {ids txs : List String} {now : ℕ} {e : ClientError}
    (h : stopOnProcessEdit d ids txs now = .error e) : stopPaths d ids = [] := by
  unfold stopOnProcessEdit at h
  unfold stopPaths
  split at h
  · cases hp : (ids.filter fun jid => jid ∈ d.jobsStatus.keys).mapM fieldPath with
    | none => rfl
    | some paths =>
        rw [hp] at h
        dsimp only at h ⊢
        split at h
        · next hc => simp [hc]
        · cases h
  · split at h <;> cases h

/-! ### One call -/

section Step

variable {s : Store} {t id j : String}

theorem mem_runningJobs_register (h : j ∉ runningJobs s t id) (c : RegisterCall) :
    j ∈ runningJobs (applyCall s (.register c)) t id ↔ Reopens t id j s (.register c) := by
  unfold applyCall runCall registerJob Reopens
  dsimp only
  by_cases ht : c.jobType = t
  · subst ht
    cases hrun : (whereMandate (s c.jobType .onProcess) c.mandatePath).isEmpty with
    | true =>
        simp only [if_true, runningJobs_put, true_and]
        split
        · next hid => simp [hid, jobDocument]
        · next hid => simp [h, Ne.symm hid]
    | false =>
        have hkeep : j ∉ runningJobs (s.put c.jobType .pending (docId c.mandatePath c.jobKey)
            (jobDocument c.mandatePath c.jobData c.jobKey c.jobType false c.now)) c.jobType id := by
          rwa [Store.put, runningJobs_change_other s _ id (by simp)]
        simpa using hkeep
  · have hkeep : ∀ sub doc, j ∉ runningJobs (s.put c.jobType sub (docId c.mandatePath c.jobKey) doc) t id := by
      intro sub doc
      rwa [Store.put, runningJobs_change_other s _ id fun hn => ht hn.1.symm]
    simp [ht, hkeep]

/-- After the last job of a document is done: the document is gone, unless the promotion writes it again. -/
theorem mem_runningJobs_finish {c : UpdateCall} {id' : String} {d : JobDoc} (ht : c.jobType = t)
    (hf : c.found s = some (id', d)) (he : c.finishes d = true) (h : j ∉ runningJobs s t id ∨ id = id') :
    j ∈ runningJobs (applyCall s (.update c)) t id ↔ c.BringsBack s id j := by
  subst ht
  have hdel : j ∉ runningJobs (s.delete c.jobType .onProcess id') c.jobType id := by
    rw [runningJobs_delete]
    split
    · simp
    · next hne => exact h.resolve_right hne
  rw [runUpdate_eq, hf]
  simp only [he, if_true, UpdateCall.BringsBack, UpdateCall.promotes, hf]
  cases oldestPending (s c.jobType .pending) c.mandatePath with
  | none => simpa using hdel
  | some e =>
      simp only [promotion, Option.some.injEq, exists_eq_left']
      rw [Store.delete, runningJobs_change_other _ _ id (by simp), runningJobs_put]
      split
      · next hid => simp [hid, promotedDoc]
      · next hid => simp [hdel, Ne.symm hid]

theorem mem_runningJobs_update (h : j ∉ runningJobs s t id) (c : UpdateCall) :
    j ∈ runningJobs (applyCall s (.update c)) t id ↔ Reopens t id j s (.update c) := by
  by_cases ht : c.jobType = t
  · simp only [Reopens, ht, true_and]
    cases hf : c.found s with
    | none => simp [runUpdate_eq, hf, h, UpdateCall.BringsBack, UpdateCall.promotes]
    | some e =>
        obtain ⟨id', d⟩ := e
        by_cases he : c.finishes d = true
        · -- a status that empties the map is terminal
          have hterm : c.newStatus ∈ terminalStatuses := by
            by_contra hn
            have hmem : c.jobId ∈ (c.newMap d).keys := by
              rw [UpdateCall.newMap, mem_keys_applyStatus, if_neg hn]
              exact Or.inl rfl
            rw [UpdateCall.finishes, Dict.isEmpty_eq_false_of_mem hmem] at he
            cases he
          simp [mem_runningJobs_finish ht hf he (Or.inl h), hterm]
        · have hget := (UpdateCall.found_get? hf).1
          subst ht
          rw [runUpdate_eq, hf]
          simp only [he, Bool.false_eq_true, if_false, UpdateCall.BringsBack, UpdateCall.promotes, hf]
          rw [runningJobs_modify s c.jobType id _ hget]
          split
          · next hid =>
            subst hid
            rw [runningJobs_of_get? hget] at h
            simp only [setStatus, UpdateCall.newMap, mem_keys_applyStatus]
            split
            · next hterm => simp [h, hterm]
            · next hterm => simp [h, hterm, eq_comm]
          · next hid => simp [h, Ne.symm hid]
  · have hkeep : runningJobs (applyCall s (.update c)) t id = runningJobs s t id := by
      have hne : ∀ sub : Sub, ¬(t = c.jobType ∧ sub = .onProcess) := fun sub hn => ht hn.1.symm
      rw [runUpdate_eq]
      cases c.found s with
      | none => rfl
      | some e =>
          dsimp only
          split
          · cases oldestPending (s c.jobType .pending) c.mandatePath with
            | none => exact runningJobs_change_other _ _ id (hne _)
            | some e =>
                dsimp only [promotion]
                rw [Store.delete, runningJobs_change_other _ _ id (hne _), Store.put,
                  runningJobs_change_other _ _ id (hne _), Store.delete, runningJobs_change_other _ _ id (hne _)]
          · exact runningJobs_change_other _ _ id (hne _)
    simp [hkeep, h, Reopens, ht]

theorem mem_runningJobs_stop (h : j ∉ runningJobs s t id) (c : StopCall) :
    j ∈ runningJobs (applyCall s (.stop c)) t id ↔ Reopens t id j s (.stop c) := by
  rw [runStop_eq]
  cases htarget : c.target s with
  | none => simp [h, Reopens, htarget]
  | some x =>
      obtain ⟨sub, id', d, jobKey, ids⟩ := x
      have hget := StopCall.target_get? htarget
      simp only [Reopens, htarget, Option.some.injEq, exists_eq_left']
      cases sub with
      | pending =>
          have hkeep : ∀ f, runningJobs (s.change c.jobType .pending f) t id = runningJobs s t id :=
            fun f => runningJobs_change_other s f id (by simp)
          cases hplan : (stopPendingPlan d ids).2 with
          | none => simp [hplan, Store.delete, hkeep, h]
          | some js => simp [hplan, hkeep, h]
      | onProcess =>
          cases hedit : stopOnProcessEdit d ids c.transactionIds c.now with
          | error e => simp [hedit, h, stopPaths_of_error hedit]
          | ok edit =>
              by_cases ht : c.jobType = t
              · subst ht
                dsimp only
                rw [hedit]
                dsimp only
                rw [runningJobs_modify s c.jobType id edit hget]
                split
                · next hid =>
                  subst hid
                  rw [runningJobs_of_get? hget] at h
                  simp [mem_keys_stopOnProcessEdit hedit, h]
                · next hid => simp [h, Ne.symm hid]
              · have hkeep : ∀ f, runningJobs (s.change c.jobType .onProcess f) t id = runningJobs s t id :=
                  fun f => runningJobs_change_other s f id fun hn => ht hn.1.symm
                simp [hedit, hkeep, h, ht]

/-- **One call.**  It lists a job that was not listed exactly when it is one of those `Reopens` describes. -/
theorem not_mem_runningJobs_applyCall (h : j ∉ runningJobs s t id) (c : Call) :
    j ∉ runningJobs (applyCall s c) t id ↔ ¬Reopens t id j s c := by
  cases c with
  | register c => exact not_congr (mem_runningJobs_register h c)
  | update c => exact not_congr (mem_runningJobs_update h c)
  | stop c => exact not_congr (mem_runningJobs_stop h c)

/-- The terminal update itself, which finds its job in the map. -/
theorem not_mem_runningJobs_terminal {c : UpdateCall} {d : JobDoc} (hterm : c.newStatus ∈ terminalStatuses)
    (hf : c.found s = some (id, d)) :
    c.jobId ∉ runningJobs (applyCall s (.update c)) c.jobType id ↔ ¬Reopens c.jobType id c.jobId s (.update c) := by
  refine not_congr ?_
  simp only [Reopens, hterm, not_true_eq_false, false_and, and_false, or_false, true_and]
  by_cases he : c.finishes d = true
  · exact mem_runningJobs_finish rfl hf he (Or.inr rfl)
  · rw [runUpdate_eq, hf]
    simp only [he, Bool.false_eq_true, if_false, UpdateCall.BringsBack, UpdateCall.promotes, hf]
    rw [runningJobs_modify s c.jobType id _ (UpdateCall.found_get? hf).1]
    simp [setStatus, UpdateCall.newMap, mem_keys_applyStatus, hterm]

end Step

/-! ### Sequences of calls -/

end Pinnokio.ActiveJobs
