import Pinnokio.Lib.Spelling
import Pinnokio.Scheduler.Tasks

/-!
# The scheduler documents of a mandate

`save_scheduler_job` stores a job of a mandate in the collection `scheduler`, under the mandate path with underscores
for its slashes and the job type. When a mandate is deleted, `delete_scheduler_documents_for_mandate` deletes the
documents whose ids begin with its path.

* `get?_delete` — what the deletion leaves;
* `startsWith_jobId_iff` — which ids begin with a path;
* `deletes_exactly_iff` — **when the deletion takes the documents of the mandate and no others**.
-/

namespace Pinnokio.Scheduler

open Pinnokio.Text Pinnokio.Spelling

/-! ### The calls -/

/-- Arguments of `save_scheduler_job`, with the time that the server writes. -/
structure SchedulerJob where
  mandatePath : String
  jobType : String
  jobData : Document
  timestamp : Value

/-- The id of the document: `f"{mandate_path.replace('/', '_')}_{job_type}"`. -/
def SchedulerJob.id (j : SchedulerJob) : String := jobId (j.mandatePath, j.jobType)

/-- `job_data_with_meta`. -/
def SchedulerJob.withMeta (j : SchedulerJob) : Document :=
  Dict.setList "enabled" (.scalar (.bool true))
    (Dict.setList "updated_at" j.timestamp (Dict.setList "created_at" j.timestamp j.jobData))

/-- `save_scheduler_job`. -/
def saveSchedulerJob (scheduler : Dict String Document) (j : SchedulerJob) : Dict String Document :=
  scheduler.set j.id j.withMeta

/-- The collection after some jobs have been saved. -/
def saveSchedulerJobs (jobs : List SchedulerJob) : Dict String Document := jobs.foldl saveSchedulerJob ∅

/-- `delete_scheduler_documents_for_mandate`: the documents are looked at one after another. -/
def deleteSchedulerDocumentsForMandate (scheduler : Dict String Document) (mandatePath : String) :
    Dict String Document :=
  let mandatePathFormatted := replaceChar mandatePath '/' "_"
  scheduler.entries.foldl (fun left doc => if startsWith doc.1 mandatePathFormatted then left.erase doc.1 else left)
    scheduler

/-- The deletion takes the documents saved for the mandate, and no others. -/
structure DeletesExactly (jobs : List SchedulerJob) (mandatePath : String) : Prop where
  gone : ∀ j ∈ jobs, j.mandatePath = mandatePath →
    (deleteSchedulerDocumentsForMandate (saveSchedulerJobs jobs) mandatePath).get? j.id = none
  kept : ∀ j ∈ jobs, j.mandatePath ≠ mandatePath →
    (deleteSchedulerDocumentsForMandate (saveSchedulerJobs jobs) mandatePath).get? j.id =
      (saveSchedulerJobs jobs).get? j.id

/-- The first path is a beginning of the second, or the second path and a beginning of the job type; slashes are read as
underscores. -/
def Reaches (mandatePath mandatePath' jobType : String) : Prop :=
  (∃ u, u <+: mandatePath'.toList ∧ spell '/' ['_'] mandatePath.toList = spell '/' ['_'] u) ∨
    ∃ u z v, mandatePath.toList = u ++ z :: v ∧ (z = '/' ∨ z = '_') ∧
      spell '/' ['_'] u = spell '/' ['_'] mandatePath'.toList ∧ spell '/' ['_'] v <+: jobType.toList

/-! ### The documents -/

section Documents

variable {jobs : List SchedulerJob} {scheduler : Dict String Document} {mandatePath id : String}

theorem get?_saveSchedulerJobs_isSome {j : SchedulerJob} (h : j ∈ jobs) :
    ∃ d, (saveSchedulerJobs jobs).get? j.id = some d := by
  induction jobs using List.reverseRecOn with
  | nil => cases h
  | append_singleton jobs last ih =>
      rw [saveSchedulerJobs, List.foldl_append]
      show ∃ d, ((saveSchedulerJobs jobs).set last.id last.withMeta).get? j.id = some d
      rw [Dict.get?_set]
      split
      · exact ⟨last.withMeta, rfl⟩
      · next hne =>
        rcases List.mem_append.mp h with h | h
        · exact ih h
        · rw [List.mem_singleton.mp h] at hne
          exact absurd rfl hne

/-- The loop erases the ids that begin with the path. -/
theorem deleteLoop_eq (formatted : String) (docs : List (String × Document)) (left : Dict String Document) :
    docs.foldl (fun left doc => if startsWith doc.1 formatted then left.erase doc.1 else left) left =
      ((docs.filter fun doc => startsWith doc.1 formatted).map Prod.fst).foldl Dict.erase left := by
  rw [List.foldl_map, List.foldl_filter]

/-- **What the deletion leaves.** -/
theorem get?_delete : (deleteSchedulerDocumentsForMandate scheduler mandatePath).get? id =
    if startsWith id (replaceChar mandatePath '/' "_") then none else scheduler.get? id := by
  have hmem : id ∈ (scheduler.entries.filter fun doc =>
        startsWith doc.1 (replaceChar mandatePath '/' "_")).map Prod.fst ↔
      id ∈ scheduler.keys ∧ startsWith id (replaceChar mandatePath '/' "_") = true := by
    simp only [Dict.keys, List.mem_map, List.mem_filter]
    constructor
    · rintro ⟨doc, ⟨hdoc, hbegins⟩, rfl⟩
      exact ⟨⟨doc, hdoc, rfl⟩, hbegins⟩
    · rintro ⟨⟨doc, hdoc, rfl⟩, hbegins⟩
      exact ⟨doc, ⟨hdoc, hbegins⟩, rfl⟩
  rw [deleteSchedulerDocumentsForMandate, deleteLoop_eq, Dict.get?_foldl_erase]
  by_cases hbegins : startsWith id (replaceChar mandatePath '/' "_") = true
  · rw [if_pos hbegins]
    split
    · rfl
    · next hnot => exact Dict.get?_eq_none_iff.mpr fun hin => hnot (hmem.mpr ⟨hin, hbegins⟩)
  · rw [if_neg hbegins, if_neg fun hin => hbegins (hmem.mp hin).2]

end Documents

/-! ### Ids that begin with a path -/

theorem toList_jobId (mandatePath jobType : String) :
    (jobId (mandatePath, jobType)).toList = spell '/' ['_'] mandatePath.toList ++ '_' :: jobType.toList := by
  rw [jobId, String.toList_append, String.toList_append, replaceChar, String.toList_ofList, List.append_assoc]
  rfl

theorem startsWith_formatted_iff {id mandatePath : String} :
    startsWith id (replaceChar mandatePath '/' "_") = true ↔ spell '/' ['_'] mandatePath.toList <+: id.toList := by
  rw [startsWith, List.isPrefixOf_iff_prefix, replaceChar, String.toList_ofList]
  rfl

/-- **Which ids begin with a path.** -/
theorem startsWith_jobId_iff {mandatePath mandatePath' jobType : String} :
    startsWith (jobId (mandatePath', jobType)) (replaceChar mandatePath '/' "_") = true ↔
      Reaches mandatePath mandatePath' jobType := by
  rw [startsWith_formatted_iff, toList_jobId, prefix_append_iff, Reaches]
  simp only [spell_singleton_eq_map]
  constructor
  · rintro (h | ⟨v, hpath, hbegins⟩)
    · exact .inl (List.prefix_map_iff.mp h)
    · obtain ⟨u, rest, hsplit, hu, hrest⟩ := List.map_eq_append_iff.mp hpath
      rcases List.prefix_cons_iff.mp hbegins with rfl | ⟨w, rfl, hw⟩
      · -- Nothing of the type is used: the two paths read alike.
        refine .inl ⟨mandatePath'.toList, List.prefix_refl _, ?_⟩
        rw [hpath, List.append_nil]
      · obtain ⟨z, v, rfl, hz, rfl⟩ := List.map_eq_cons_iff.mp hrest
        refine .inr ⟨u, z, v, hsplit, ?_, hu, hw⟩
        by_cases hslash : z = '/'
        · exact .inl hslash
        · rw [if_neg hslash] at hz
          exact .inr hz
  · rintro (h | ⟨u, z, v, hsplit, hz, hu, hv⟩)
    · exact .inl (List.prefix_map_iff.mpr h)
    · refine .inr ⟨'_' :: v.map fun x => if x = '/' then '_' else x, ?_, List.cons_prefix_cons.mpr ⟨rfl, hv⟩⟩
      rw [hsplit, List.map_append, hu, List.map_cons]
      rcases hz with rfl | rfl
      · rfl
      · rfl

/-- The ids of a mandate begin with its path. -/
theorem reaches_self (mandatePath jobType : String) : Reaches mandatePath mandatePath jobType :=
  .inl ⟨mandatePath.toList, List.prefix_refl _, rfl⟩

/-! ### The deletion -/

/-- **The deletion of a mandate's documents.**  Whatever jobs have been saved: the documents of the mandate are deleted
and no others, exactly when no job of another mandate has a path that begins with the mandate's path, or a path that the
mandate's path continues with the beginning of the job type. -/
theorem deletes_exactly_iff (jobs : List SchedulerJob) (mandatePath : String) :
    DeletesExactly jobs mandatePath ↔
      ∀ j ∈ jobs, j.mandatePath ≠ mandatePath → ¬Reaches mandatePath j.mandatePath j.jobType := by
  constructor
  · intro h j hj hother hreaches
    have hkept := h.kept j hj hother
    rw [get?_delete, SchedulerJob.id, if_pos (startsWith_jobId_iff.mpr hreaches)] at hkept
    obtain ⟨d, hd⟩ := get?_saveSchedulerJobs_isSome hj
    rw [SchedulerJob.id, ← hkept] at hd
    cases hd
  · intro h
    refine ⟨fun j hj hown => ?_, fun j hj hother => ?_⟩
    · rw [get?_delete, SchedulerJob.id, hown, if_pos (startsWith_jobId_iff.mpr (reaches_self mandatePath j.jobType))]
    · rw [get?_delete]
      exact if_neg fun hbegins => h j hj hother (startsWith_jobId_iff.mp hbegins)

/-- The deletion of the mandate `m1` takes the job of `m10`. -/
theorem deletes_longer_path : ¬∀ (jobs : List SchedulerJob) (mandatePath : String),
    (∀ j ∈ jobs, ∀ j' ∈ jobs, j.id = j'.id → j.mandatePath = j'.mandatePath ∧ j.jobType = j'.jobType) →
    DeletesExactly jobs mandatePath := by
  intro h
  have hdeletes := h [⟨"clients/u/mandates/m10", "router", [], .scalar .none⟩] "clients/u/mandates/m1" (by simp)
  have hkept := hdeletes.kept _ (List.mem_singleton_self _) (by decide)
  rw [get?_delete, if_pos (by decide)] at hkept
  cases hkept

end Pinnokio.Scheduler
