import Pinnokio.ActiveJobs.Calls
import Pinnokio.ActiveJobs.PathCodec

/-!
# The cleanup of a reverse reconciliation

`_cleanup_reverse_recon_active_job` deletes the document of a reverse-reconciliation job when its scoring is over.  It
writes the document id with an encoding of its own and deletes it from both subcollections and from the collection of
the migration; it does not look for a pending batch.

* `cleanupEncoding_eq_iff` — when its encoding is the one of the queue;
* `filed_run` — along any calls every document is stored under the id of its mandate and key;
* `cleanup_removes_exactly_iff` — **when the cleanup deletes the document of a registration and no other one, and
  leaves no batch of the mandate waiting**.
-/

namespace Pinnokio.ActiveJobs

open Pinnokio.Text Pinnokio.Spelling Pinnokio.Runs

/-! ### The cleanup -/

/-- The job type of a reverse reconciliation. -/
def reversereconciliation : String := "reversereconciliation"

/-- The encoding of the cleanup: `mandate_path.replace("/", "_").replace(".", "_dot_")`. -/
def cleanupEncoding (mandatePath : String) : String := replaceChar (replaceChar mandatePath '/' "_") '.' "_dot_"

/-- `f"{encoded}_{request_id}"`. -/
def cleanupDocId (mandatePath requestId : String) : String := cleanupEncoding mandatePath ++ "_" ++ requestId

/-- The queue, and the collection `active_jobs/reversereconciliation/jobs` of the migration. -/
structure ReverseJobs where
  queue : Store
  jobs : Col

/-- `_cleanup_reverse_recon_active_job`. -/
def cleanupReverseReconActiveJob (s : ReverseJobs) (mandatePath requestId : String) : ReverseJobs :=
  let id := cleanupDocId mandatePath requestId
  { queue := (s.queue.delete reversereconciliation .onProcess id).delete reversereconciliation .pending id
    jobs := s.jobs.erase id }

/-- The cleanup deletes the document of the job in `sub`, and no other one.  If the job was running, the oldest pending
batch of the mandate takes its place. -/
def RemovesExactly (s : ReverseJobs) (sub : Sub) (mandatePath requestId : String) : Prop :=
  let s' := cleanupReverseReconActiveJob s mandatePath requestId
  let deleted := s.queue.delete reversereconciliation sub (docId mandatePath requestId)
  s'.jobs = s.jobs ∧
    match sub with
    | .pending => s'.queue = deleted
    | .onProcess => ∃ now, s'.queue = (promoteNextPending deleted reversereconciliation mandatePath now).1

/-- The other subcollection. -/
def Sub.other : Sub → Sub
  | .onProcess => .pending
  | .pending => .onProcess

/-- When the cleanup is right: the two encodings agree, the id is in no other collection, and no batch of the mandate
waits behind a running job. -/
structure Cleanable (s : ReverseJobs) (sub : Sub) (mandatePath requestId : String) : Prop where
  named : mandatePath ≠ ""
  noHash : '#' ∉ mandatePath.toList
  short : spelledLength mandatePath ≤ 1000
  alone : (s.queue reversereconciliation sub.other).get? (docId mandatePath requestId) = none
  migrated : s.jobs.get? (docId mandatePath requestId) = none
  last : sub = .onProcess → oldestPending (s.queue reversereconciliation .pending) mandatePath = none

/-! ### The two encodings -/

section Encodings

variable {mandatePath : String}

theorem toList_cleanupEncoding (mandatePath : String) : (cleanupEncoding mandatePath).toList =
    spell '.' dotWord.word (underscored mandatePath.toList) := by
  rw [cleanupEncoding, toList_replaceChar, toList_replaceChar]
  rfl

/-- Without a hash the cleanup spells the path out as the queue does. -/
theorem toList_cleanupEncoding_of_noHash (h : '#' ∉ mandatePath.toList) :
    (cleanupEncoding mandatePath).toList = spelled mandatePath.toList := by
  have hnone : '#' ∉ underscored mandatePath.toList := by
    intro hmem
    obtain ⟨c, hc, hin⟩ := List.mem_flatMap.mp hmem
    rw [spellChar] at hin
    split at hin
    · exact absurd hin (by decide)
    · rw [List.mem_singleton] at hin
      exact h (hin ▸ hc)
  rw [toList_cleanupEncoding, spelled_eq, spell_of_not_mem hnone]

/-- A hash stays in the encoding of the cleanup. -/
theorem hash_mem_cleanupEncoding (h : '#' ∈ mandatePath.toList) : '#' ∈ (cleanupEncoding mandatePath).toList := by
  rw [toList_cleanupEncoding]
  exact mem_spell (by decide) (mem_spell (by decide) h)

/-- An encoded path has no hash. -/
theorem hash_not_mem_encode (mandatePath : String) : '#' ∉ (encodeMandatePath mandatePath).toList := by
  intro hmem
  by_cases hempty : mandatePath = ""
  · subst hempty
    exact absurd hmem (by decide)
  · rw [toList_encodeMandatePath hempty] at hmem
    split at hmem
    · rcases List.mem_append.mp hmem with hmem | hmem
      · exact absurd hmem (by decide)
      · obtain ⟨n, hn⟩ := mem_urlsafeB64 hmem
        exact (b64Char_plain n).2 (.inr (.inr hn.symm))
    · exact not_special_of_mem_spelled hmem (.inr (.inr rfl))

/-- A long path is not spelled like its own base64 text. -/
theorem spelled_ne_urlsafeB64 (mandatePath : String) :
    spelled mandatePath.toList ≠ ['b', '6', '4', '_'] ++ urlsafeB64 (Base64.utf8 mandatePath) := by
  intro hsame
  have hlike : LikeBase64 mandatePath.toList := b64_prefix_spelled_iff.mp ⟨_, hsame.symm⟩
  have hdrop : (spelled mandatePath.toList).drop 4 = urlsafeB64 (Base64.utf8 mandatePath) := by
    rw [hsame]
    rfl
  apply decode?_ne hlike
  rw [hdrop]
  exact decode?_urlsafeB64 mandatePath

/-- **When the encoding of the cleanup is the one of the queue.** -/
theorem cleanupEncoding_eq_iff : cleanupEncoding mandatePath = encodeMandatePath mandatePath ↔
    mandatePath ≠ "" ∧ '#' ∉ mandatePath.toList ∧ spelledLength mandatePath ≤ 1000 := by
  constructor
  · intro heq
    have hnamed : mandatePath ≠ "" := by
      rintro rfl
      exact absurd heq (by decide)
    have hhash : '#' ∉ mandatePath.toList := by
      intro hmem
      have hin := hash_mem_cleanupEncoding hmem
      rw [heq] at hin
      exact hash_not_mem_encode mandatePath hin
    refine ⟨hnamed, hhash, Nat.le_of_not_lt fun hlong => ?_⟩
    have hlist := congrArg String.toList heq
    rw [toList_cleanupEncoding_of_noHash hhash, toList_encodeMandatePath hnamed, if_pos hlong] at hlist
    exact spelled_ne_urlsafeB64 mandatePath hlist
  · rintro ⟨hnamed, hhash, hshort⟩
    apply String.toList_injective
    rw [toList_cleanupEncoding_of_noHash hhash, toList_encodeMandatePath hnamed, if_neg (Nat.not_lt.mpr hshort)]

/-- The cleanup addresses the document of the queue when the encodings agree. -/
theorem cleanupDocId_eq_iff {requestId : String} :
    cleanupDocId mandatePath requestId = docId mandatePath requestId ↔
      mandatePath ≠ "" ∧ '#' ∉ mandatePath.toList ∧ spelledLength mandatePath ≤ 1000 := by
  rw [← cleanupEncoding_eq_iff, cleanupDocId, docId]
  constructor
  · intro heq
    have hlist := congrArg String.toList heq
    simp only [String.toList_append, List.append_assoc] at hlist
    exact String.toList_injective (List.append_cancel_right hlist)
  · intro heq
    rw [heq]

end Encodings

/-! ### Where the documents are -/

/-- Every document is stored under the id of its mandate and key. -/
def Filed (s : Store) : Prop := ∀ t sub id d, (s t sub).get? id = some d → id = docId d.mandatePath d.jobKey

section Filing

variable {s : Store} {t id : String} {sub : Sub}

theorem Filed.change (h : Filed s) {f : Col → Col}
    (hf : ∀ id d, (f (s t sub)).get? id = some d → id = docId d.mandatePath d.jobKey) :
    Filed (s.change t sub f) := by
  intro t' sub' id d hd
  by_cases hplace : t' = t ∧ sub' = sub
  · obtain ⟨rfl, rfl⟩ := hplace
    rw [Store.change_same] at hd
    exact hf id d hd
  · rw [Store.change_other s f hplace] at hd
    exact h t' sub' id d hd

theorem Filed.put (h : Filed s) {d : JobDoc} : Filed (s.put t sub (docId d.mandatePath d.jobKey) d) := by
  refine h.change fun id d' hd' => ?_
  rw [Dict.get?_set] at hd'
  split at hd'
  · next heq =>
    cases hd'
    exact heq
  · exact h t sub id d' hd'

theorem Filed.delete (h : Filed s) : Filed (s.delete t sub id) := by
  refine h.change fun id' d hd => ?_
  rw [Dict.get?_erase] at hd
  split at hd
  · cases hd
  · exact h t sub id' d hd

/-- An edit that keeps the mandate and the key. -/
theorem Filed.modify (h : Filed s) {f : JobDoc → JobDoc}
    (hf : ∀ d, (f d).mandatePath = d.mandatePath ∧ (f d).jobKey = d.jobKey) :
    Filed (s.change t sub fun col => col.modify id f) := by
  refine h.change fun id' d hd => ?_
  rw [Dict.get?_modify] at hd
  split at hd
  · obtain ⟨d', hd', rfl⟩ := Option.map_eq_some_iff.mp hd
    rw [(hf d').1, (hf d').2]
    exact h t sub id' d' hd'
  · exact h t sub id' d hd

/-- The edit of a stop keeps the mandate and the key. -/
theorem stopOnProcessEdit_filed {snapshot : JobDoc} {ids txs : List String} {now : ℕ} {edit : JobDoc → JobDoc}
    (h : stopOnProcessEdit snapshot ids txs now = .ok edit) (d : JobDoc) :
    (edit d).mandatePath = d.mandatePath ∧ (edit d).jobKey = d.jobKey := by
  unfold stopOnProcessEdit at h
  split at h
  · split at h
    · cases h
    · split at h
      · cases h
      · cases h
        exact ⟨rfl, rfl⟩
  · split at h
    · cases h
      exact ⟨rfl, rfl⟩
    · cases h
      exact ⟨rfl, rfl⟩

/-- One call keeps every document under its id. -/
theorem filed_applyCall (h : Filed s) (c : Call) : Filed (applyCall s c) := by
  cases c with
  | register c =>
      rw [applyCall, runCall, registerJob]
      exact h.put (d := jobDocument c.mandatePath c.jobData c.jobKey c.jobType _ c.now)
  | update c =>
      rw [runUpdate_eq]
      cases c.found s with
      | none => exact h
      | some found =>
          dsimp only
          split
          · cases holdest : oldestPending (s c.jobType .pending) c.mandatePath with
            | none => exact h.delete
            | some e =>
                -- The promoted document is one of the mandate.
                have hmandate : e.2.mandatePath = c.mandatePath := (oldestPending_mem holdest).2
                have hput : Filed ((s.delete c.jobType .onProcess found.1).put c.jobType .onProcess
                    (docId e.2.mandatePath e.2.jobKey) (promotedDoc e.2 c.promoteNow)) :=
                  h.delete.put (d := promotedDoc e.2 c.promoteNow)
                rw [hmandate] at hput
                exact hput.delete
          · exact h.modify fun d => ⟨rfl, rfl⟩
  | stop c =>
      rw [runStop_eq]
      split
      · exact h
      · split
        · exact h
        · next edit hedit => exact h.modify (stopOnProcessEdit_filed hedit)
      · split
        · exact h.delete
        · exact h.modify fun d => ⟨rfl, rfl⟩

/-- **Along any calls** every document is stored under the id of its mandate and key. -/
theorem filed_run (calls : List Call) : Filed (run applyCall Store.empty calls) := by
  refine run_invariant (fun _ s => Filed s) ?_ calls ?_ (guarded_of_forall (P := fun _ => True) fun _ _ => trivial)
  · intro t sub id d hd
    cases hd
  · intro _ c _ hs _
    exact filed_applyCall hs c

end Filing

/-! ### What the cleanup removes -/

theorem Store.delete_absent {s : Store} {t id : String} {sub : Sub} (h : (s t sub).get? id = none) :
    s.delete t sub id = s := by
  funext t' sub'
  by_cases hplace : t' = t ∧ sub' = sub
  · obtain ⟨rfl, rfl⟩ := hplace
    rw [Store.delete, Store.change_same, Dict.erase_of_get?_none h]
  · exact Store.change_other s _ hplace

section Cleanup

variable {s : ReverseJobs} {sub : Sub} {mandatePath requestId : String} {d : JobDoc}

theorem cleanup_onProcess :
    (cleanupReverseReconActiveJob s mandatePath requestId).queue reversereconciliation .onProcess =
      (s.queue reversereconciliation .onProcess).erase (cleanupDocId mandatePath requestId) := by
  simp [cleanupReverseReconActiveJob, Store.delete]

theorem cleanup_pending :
    (cleanupReverseReconActiveJob s mandatePath requestId).queue reversereconciliation .pending =
      (s.queue reversereconciliation .pending).erase (cleanupDocId mandatePath requestId) := by
  simp [cleanupReverseReconActiveJob, Store.delete]

/-- Two queues that are the same have the same documents. -/
theorem get?_of_eq {q q' : Store} (h : q = q') (sub : Sub) (id : String) :
    (q reversereconciliation sub).get? id = (q' reversereconciliation sub).get? id := by rw [h]

/-- The job of a pending document is deleted where the encodings agree, and only there. -/
theorem removesExactly_pending_iff
    (hd : (s.queue reversereconciliation .pending).get? (docId mandatePath requestId) = some d) :
    RemovesExactly s .pending mandatePath requestId ↔ Cleanable s .pending mandatePath requestId := by
  constructor
  · rintro ⟨hjobs, hqueue⟩
    have hsame : cleanupDocId mandatePath requestId = docId mandatePath requestId := by
      by_contra hne
      have hgone := get?_of_eq hqueue .pending (docId mandatePath requestId)
      simp only [cleanup_pending, Store.delete, Store.change_same, Dict.get?_erase, if_neg (Ne.symm hne), if_true, hd]
        at hgone
      cases hgone
    have halone := get?_of_eq hqueue .onProcess (docId mandatePath requestId)
    have hmigrated := congrArg (fun c : Col => c.get? (docId mandatePath requestId)) hjobs
    simp only [cleanup_onProcess, hsame, Store.delete, Store.change_pending_onProcess, Dict.get?_erase_self] at halone
    simp only [cleanupReverseReconActiveJob, hsame, Dict.get?_erase_self] at hmigrated
    obtain ⟨hnamed, hhash, hshort⟩ := cleanupDocId_eq_iff.mp hsame
    refine ⟨hnamed, hhash, hshort, halone.symm, hmigrated.symm, fun h => ?_⟩
    cases h
  · rintro ⟨hnamed, hhash, hshort, halone, hmigrated, -⟩
    have hsame : cleanupDocId mandatePath requestId = docId mandatePath requestId :=
      cleanupDocId_eq_iff.mpr ⟨hnamed, hhash, hshort⟩
    have hrunning : (s.queue reversereconciliation .onProcess).get? (docId mandatePath requestId) = none := halone
    simp only [RemovesExactly, cleanupReverseReconActiveJob, hsame]
    rw [Store.delete_absent hrunning, Dict.erase_of_get?_none hmigrated]
    exact ⟨rfl, rfl⟩

/-- No document with the job's id is left running after the cleanup, if a batch with another key is promoted. -/
theorem promotion_leaves {e : String × JobDoc} (hkey : e.2.jobKey ≠ requestId) {now : ℕ} {q : Store}
    (holdest : oldestPending (q reversereconciliation .pending) mandatePath = some e) :
    (((promoteNextPending (q.delete reversereconciliation .onProcess (docId mandatePath requestId))
      reversereconciliation mandatePath now).1 reversereconciliation .onProcess).get?
        (docId mandatePath requestId)) = none := by
  have hne : docId mandatePath requestId ≠ docId mandatePath e.2.jobKey := fun h => hkey (docId_injective h).symm
  simp [promoteNextPending, Store.delete, Store.put, holdest, Dict.get?_set_ne _ _ hne]

/-- The promoted document no longer waits. -/
theorem promotion_takes {e : String × JobDoc} {id : String} {now : ℕ} {q : Store}
    (holdest : oldestPending (q reversereconciliation .pending) mandatePath = some e) :
    (((promoteNextPending (q.delete reversereconciliation .onProcess id) reversereconciliation mandatePath now).1
      reversereconciliation .pending).get? e.1) = none := by
  simp [promoteNextPending, Store.delete, Store.put, holdest]

/-- A promoted batch runs. -/
theorem promotion_runs {e : String × JobDoc} {id : String} {now : ℕ} {q : Store}
    (holdest : oldestPending (q reversereconciliation .pending) mandatePath = some e) :
    (((promoteNextPending (q.delete reversereconciliation .onProcess id) reversereconciliation mandatePath now).1
      reversereconciliation .onProcess).get? (docId mandatePath e.2.jobKey)) = some (promotedDoc e.2 now) := by
  simp [promoteNextPending, Store.delete, Store.put, holdest]

/-- A running job whose document the cleanup does not address stays. -/
theorem cleanupDocId_eq_of_removesExactly (hfiled : Filed s.queue)
    (hd : (s.queue reversereconciliation .onProcess).get? (docId mandatePath requestId) = some d)
    (h : RemovesExactly s .onProcess mandatePath requestId) :
    cleanupDocId mandatePath requestId = docId mandatePath requestId := by
  obtain ⟨-, now, hqueue⟩ := h
  by_contra hne
  have hrunning := get?_of_eq hqueue .onProcess (docId mandatePath requestId)
  simp only [cleanup_onProcess, Dict.get?_erase, if_neg (Ne.symm hne), hd] at hrunning
  cases holdest : oldestPending (s.queue reversereconciliation .pending) mandatePath with
  | none =>
      simp [promoteNextPending, Store.delete, holdest] at hrunning
  | some e =>
      by_cases hkey : e.2.jobKey = requestId
      · -- A second batch with the key waits, and is promoted under the same id.
        obtain ⟨hmem, hmandate⟩ := oldestPending_mem holdest
        have hget := Dict.mem_entries_iff.mp hmem
        have hother : e.1 ≠ cleanupDocId mandatePath requestId := by
          rw [hfiled _ _ _ _ hget, hmandate, hkey]
          exact Ne.symm hne
        have hwaiting := get?_of_eq hqueue .pending e.1
        simp only [cleanup_pending, promotion_takes holdest, Dict.get?_erase, if_neg hother, hget] at hwaiting
        cases hwaiting
      · rw [promotion_leaves hkey holdest] at hrunning
        cases hrunning

/-- A batch that waits behind the job keeps waiting. -/
theorem oldestPending_of_removesExactly (hfiled : Filed s.queue)
    (hsame : cleanupDocId mandatePath requestId = docId mandatePath requestId)
    (h : RemovesExactly s .onProcess mandatePath requestId) :
    oldestPending (s.queue reversereconciliation .pending) mandatePath = none := by
  obtain ⟨-, now, hqueue⟩ := h
  cases holdest : oldestPending (s.queue reversereconciliation .pending) mandatePath with
  | none => rfl
  | some e =>
      exfalso
      obtain ⟨hmem, hmandate⟩ := oldestPending_mem holdest
      have hget := Dict.mem_entries_iff.mp hmem
      have hid : e.1 = docId mandatePath e.2.jobKey := by
        rw [← hmandate]
        exact hfiled _ _ _ _ hget
      by_cases hkey : e.2.jobKey = requestId
      · have hrunning := get?_of_eq hqueue .onProcess (docId mandatePath e.2.jobKey)
        simp only [promotion_runs holdest, cleanup_onProcess, hsame] at hrunning
        rw [hkey, Dict.get?_erase_self] at hrunning
        cases hrunning
      · have hne : e.1 ≠ docId mandatePath requestId := by
          rw [hid]
          exact fun heq => hkey (docId_injective heq)
        have hwaiting := get?_of_eq hqueue .pending e.1
        simp only [cleanup_pending, promotion_takes holdest, hsame, Dict.get?_erase, if_neg hne, hget] at hwaiting
        cases hwaiting

/-- The running job is deleted and the queue moves on where the encodings agree and no batch waits, and only there. -/
theorem removesExactly_onProcess_iff (hfiled : Filed s.queue)
    (hd : (s.queue reversereconciliation .onProcess).get? (docId mandatePath requestId) = some d) :
    RemovesExactly s .onProcess mandatePath requestId ↔ Cleanable s .onProcess mandatePath requestId := by
  constructor
  · intro h
    have hsame := cleanupDocId_eq_of_removesExactly hfiled hd h
    have hlast := oldestPending_of_removesExactly hfiled hsame h
    obtain ⟨hjobs, now, hqueue⟩ := h
    have halone := get?_of_eq hqueue .pending (docId mandatePath requestId)
    have hmigrated := congrArg (fun c : Col => c.get? (docId mandatePath requestId)) hjobs
    simp only [cleanup_pending, hsame, promoteNextPending, Store.delete, Store.change_onProcess_pending, hlast,
      Dict.get?_erase_self] at halone
    simp only [cleanupReverseReconActiveJob, hsame, Dict.get?_erase_self] at hmigrated
    obtain ⟨hnamed, hhash, hshort⟩ := cleanupDocId_eq_iff.mp hsame
    exact ⟨hnamed, hhash, hshort, halone.symm, hmigrated.symm, fun _ => hlast⟩
  · rintro ⟨hnamed, hhash, hshort, halone, hmigrated, hlast⟩
    have hsame : cleanupDocId mandatePath requestId = docId mandatePath requestId :=
      cleanupDocId_eq_iff.mpr ⟨hnamed, hhash, hshort⟩
    have hwaiting : ((s.queue.delete reversereconciliation .onProcess (docId mandatePath requestId))
        reversereconciliation .pending).get? (docId mandatePath requestId) = none := by
      rw [Store.delete, Store.change_onProcess_pending]
      exact halone
    simp only [RemovesExactly, cleanupReverseReconActiveJob, hsame]
    rw [Store.delete_absent hwaiting, Dict.erase_of_get?_none hmigrated]
    refine ⟨rfl, 0, ?_⟩
    simp only [promoteNextPending, Store.delete, Store.change_onProcess_pending, hlast rfl]

/-- The cleanup of a job whose document is under its id. -/
theorem removesExactly_iff (hfiled : Filed s.queue)
    (hd : (s.queue reversereconciliation sub).get? (docId mandatePath requestId) = some d) :
    RemovesExactly s sub mandatePath requestId ↔ Cleanable s sub mandatePath requestId := by
  cases sub with
  | onProcess => exact removesExactly_onProcess_iff hfiled hd
  | pending => exact removesExactly_pending_iff hd

end Cleanup

/-- **The cleanup of a registered job.** Before and after the registration of a reverse-reconciliation job the queue may
have executed any calls. While the document of the job is in one of the two subcollections, the cleanup deletes it and
no other document, and starts the next batch of the mandate behind a running one, exactly when the path is not empty,
has no hash and is not longer than 1000 characters when it is spelled out, no other collection has a document with the
id, and no batch of the mandate waits behind the running job. -/
theorem cleanup_removes_exactly_iff (before after : List Call) (c : RegisterCall) (jobs : Col) (sub : Sub) (d : JobDoc)
    (hc : c.jobType = reversereconciliation)
    (hd : (run applyCall Store.empty (before ++ .register c :: after) c.jobType sub).get?
      (docId c.mandatePath c.jobKey) = some d) :
    RemovesExactly ⟨run applyCall Store.empty (before ++ .register c :: after), jobs⟩ sub c.mandatePath c.jobKey ↔
      Cleanable ⟨run applyCall Store.empty (before ++ .register c :: after), jobs⟩ sub c.mandatePath c.jobKey := by
  rw [hc] at hd
  exact removesExactly_iff (filed_run _) hd

/-- The registration of a reverse reconciliation. -/
def reverseCall (requestId : String) (now : ℕ) : RegisterCall where
  mandatePath := "clients/u/mandates/m"
  jobData :=
    { fields := ∅
      jobsData := []
      items := [⟨Dict.ofList [("item_id", .str requestId)], []⟩] }
  jobKey := requestId
  jobType := reversereconciliation
  now := now

/-- The only job of a mandate is removed. -/
theorem cleanup_removes_exactly_alone :
    RemovesExactly ⟨run applyCall Store.empty ([] ++ .register (reverseCall "r1" 1) :: []), ∅⟩ .onProcess
      "clients/u/mandates/m" "r1" := by
  refine (cleanup_removes_exactly_iff [] [] (reverseCall "r1" 1) ∅ .onProcess
    (jobDocument "clients/u/mandates/m" (reverseCall "r1" 1).jobData "r1" reversereconciliation true 1) rfl rfl).mpr ?_
  exact ⟨by decide, by decide, by decide +kernel, rfl, rfl, fun _ => rfl⟩

/-- A second job of the mandate waits, and the cleanup of the first one leaves it waiting. -/
theorem cleanup_leaves_next_waiting : ¬∀ (before after : List Call) (c : RegisterCall) (jobs : Col) (sub : Sub)
    (d : JobDoc), c.jobType = reversereconciliation →
    (run applyCall Store.empty (before ++ .register c :: after) c.jobType sub).get?
      (docId c.mandatePath c.jobKey) = some d →
    RemovesExactly ⟨run applyCall Store.empty (before ++ .register c :: after), jobs⟩ sub c.mandatePath
      c.jobKey := by
  intro h
  have hremoves := h [] [.register (reverseCall "r2" 2)] (reverseCall "r1" 1) ∅ .onProcess
    (jobDocument "clients/u/mandates/m" (reverseCall "r1" 1).jobData "r1" reversereconciliation true 1) rfl rfl
  have hcleanable := (removesExactly_iff (filed_run _) (by rfl)).mp hremoves
  cases hcleanable.last rfl

end Pinnokio.ActiveJobs
