import Mathlib.Data.List.ModifyLast
import Pinnokio.Realtime.ItemsKept

/-!
# Deleting jobs

`handle_job_delete` deletes the jobs of a payload one after another.  An exception in the body of the loop puts the job
among the failed ones; the cache is updated once, after the loop, and the files that were moved back to the drive are put
into the routing cache.

* `cache_after_delete_iff` — failed deletions keep their items iff every job fails or no item goes by the id of a failed
  job;
* `own_fields_iff` — every restored file carries the fields of its own Router document iff a job whose file could not
  be moved finds those fields in the entry before it.
-/

namespace Pinnokio.JobActions

open Pinnokio Pinnokio.Runs Pinnokio.Text Pinnokio.Realtime

/-! ### The payload -/

/-- An element of `items`; an empty text stands for a missing value. -/
structure DeleteItem where
  jobId : String
  id : String
  fileName : String

/-- The payload of a delete request. -/
structure DeletePayload where
  jobIds : List String
  items : List DeleteItem

/-- `_normalize_delete_payload`. -/
def normalizeDeletePayload (payload : DeletePayload) : List (String × String) :=
  if payload.items ≠ [] then
    (payload.items.map fun item => (orElse item.jobId item.id, item.fileName)).filter fun pair => pair.1 ≠ ""
  else payload.jobIds.map fun jobId => (jobId, "")

/-! ### The loop -/

/-- What happens to a job: an exception before its file is moved, the file it is resolved to (for bookkeeper jobs), and
whether that file is moved.  Moving a file raises no exception, and nothing after it does. -/
structure Outcome where
  raises : Bool
  driveFileId : String
  resolvedName : String
  moveSuccess : Bool

/-- A job of the payload. -/
structure DeleteJob where
  jobId : String
  fileName : String
  outcome : Outcome

/-- The jobs, with an outcome for each place in the payload. -/
def deleteJobs (payload : DeletePayload) (outcomes : ℕ → Outcome) : List DeleteJob :=
  (normalizeDeletePayload payload).zipIdx.map fun pair => ⟨pair.1.1, pair.1.2, outcomes pair.2⟩

/-- The fields of a Router document that an entry is enriched with. -/
structure RouterFields where
  klkJobId : String := ""
  collectionId : String := ""
  mandatePath : String := ""
  deriving DecidableEq

/-- The Router documents of `task_manager` that exist. -/
abbrev RouterDocs := String → Option RouterFields

/-- `deleted_jobs`, `failed_jobs` and `moved_to_todo`. -/
structure Progress where
  deletedJobs : List String
  failedJobs : List String
  movedToTodo : List MovedItem

/-- The job has a file on the drive; the expenses of the bookkeeper may have an internal id instead. -/
def hasDriveFile (jobType driveFileId : String) : Bool :=
  if jobType = "apbookeeper" then driveFileId ≠ ""
  else jobType = "exbookeeper" && driveFileId ≠ "" && !("klk_".toList.isPrefixOf driveFileId.toList)

/-- An entry with the fields of a Router document. -/
def enrich (d : RouterFields) (m : MovedItem) : MovedItem :=
  { m with klkJobId := d.klkJobId, collectionId := d.collectionId, mandatePath := d.mandatePath }

/-- Step 5c: the last entry is enriched; the `IndexError` of an empty list is caught. -/
def resetRouter (docs : RouterDocs) (driveFileId : String) (moved : List MovedItem) : List MovedItem :=
  match docs driveFileId with
  | none => moved
  | some d => moved.modifyLast (enrich d)

/-- Step 5: the file is moved back. -/
def moveFile (jobType : String) (docs : RouterDocs) (moved : List MovedItem) (j : DeleteJob) : List MovedItem :=
  let o := j.outcome
  if jobType = "router" then
    if o.moveSuccess then moved ++ [⟨"", j.jobId, j.fileName, "", "", ""⟩] else moved
  else if hasDriveFile jobType o.driveFileId then
    resetRouter docs o.driveFileId
      (if o.moveSuccess then moved ++ [⟨o.driveFileId, o.driveFileId, o.resolvedName, "", "", ""⟩] else moved)
  else moved

/-- The body of the loop. -/
def deleteJob (jobType : String) (docs : RouterDocs) (p : Progress) (j : DeleteJob) : Progress :=
  if j.outcome.raises then { p with failedJobs := p.failedJobs ++ [j.jobId] }
  else { p with
    deletedJobs := p.deletedJobs ++ [j.jobId]
    movedToTodo := moveFile jobType docs p.movedToTodo j }

/-- The loop. -/
def deleteAll (jobType : String) (docs : RouterDocs) (jobs : List DeleteJob) : Progress :=
  run (deleteJob jobType docs) ⟨[], [], []⟩ jobs

theorem deleteAll_concat (jobType : String) (docs : RouterDocs) (jobs : List DeleteJob) (j : DeleteJob) :
    deleteAll jobType docs (jobs ++ [j]) = deleteJob jobType docs (deleteAll jobType docs jobs) j := run_concat ..

/-! ### The caches -/

/-- The domain of a job type, `JOB_TYPE_CONFIG.get(job_type, JOB_TYPE_CONFIG["router"])["domain"]`. -/
def domainOf (jobType : String) : String :=
  if jobType = "apbookeeper" then "invoices"
  else if jobType = "bankbookeeper" then "bank"
  else if jobType = "exbookeeper" then "expenses"
  else if jobType = "onboarding" then "onboarding"
  else if jobType = "hr" then "hr"
  else "routing"

/-- The business caches of a company, by domain. -/
abbrev Caches := String → Option BusinessCache

/-- Change the cache of a domain, if there is one. -/
def Caches.update (caches : Caches) (domain : String) (f : BusinessCache → BusinessCache) : Caches :=
  Function.update caches domain ((caches domain).map f)

/-- `handle_job_delete`: what it reports, and the caches after it. -/
def handleJobDelete (jobType : String) (docs : RouterDocs) (now : String) (caches : Caches) (payload : DeletePayload)
    (outcomes : ℕ → Outcome) : Progress × Caches :=
  if payload.jobIds = [] then (⟨[], [], []⟩, caches)
  else
    let jobs := deleteJobs payload outcomes
    let p := deleteAll jobType docs jobs
    let cleared :=
      if p.deletedJobs = [] then caches
      -- every job of the payload, the failed ones too
      else caches.update (domainOf jobType) fun b => updateCacheAfterDelete b (jobs.map DeleteJob.jobId)
    let routed :=
      if jobType ∈ ["router", "apbookeeper", "exbookeeper"] ∧ p.movedToTodo ≠ [] then
        cleared.update "routing" fun b => addToRoutingTodo now b p.movedToTodo
      else cleared
    (p, routed)

/-! ### Where the items of the routing cache come from -/

/-- An item is as it was, but for its status and its time. -/
def Untouched (y x : Item) : Prop := ∀ k, k ≠ "status" → k ≠ "timestamp" → x.get k = y.get k

section Todo

variable {now : String}

theorem Untouched.refl (x : Item) : Untouched x x := fun _ _ _ => rfl

theorem Untouched.trans {x y z : Item} (hxy : Untouched x y) (hyz : Untouched y z) : Untouched x z :=
  fun k hstatus htime => (hyz k hstatus htime).trans (hxy k hstatus htime)

/-- The ids are not among what changes. -/
theorem Untouched.sameIds {x y : Item} (h : Untouched x y) : SameIds x y := by
  intro k hk
  refine h k ?_ ?_ <;>
    · rintro rfl
      exact absurd hk (by decide)

theorem untouched_resetItem (now : String) (item : Item) : Untouched item (resetItem now item) := by
  intro k hstatus htime
  rw [resetItem, get_set, if_neg htime, get_set, if_neg hstatus]

/-- A new item before the fields of the Router document. -/
def bareTodoItem (now : String) (m : MovedItem) : Item :=
  Dict.ofList [("id", .str m.driveId), ("job_id", .str m.driveId), ("file_name", .str m.fileName),
    ("drive_file_id", .str m.driveId), ("status", .str "to_process"), ("source", .str "drive"), ("timestamp", .str now)]

/-- The other fields of a new item. -/
theorem newTodoItem_get_other (now : String) (m : MovedItem) {k : String}
    (hk : k ∉ ["klk_job_id", "collection_id", "mandate_path"]) :
    (newTodoItem now m).get k = (bareTodoItem now m).get k := by
  have hset : ∀ (extra : List (String × String)) (item : Item), (∀ e ∈ extra, e.1 ≠ k) →
      Fields.get (extra.foldl (fun item e => item.set e.1 (.str e.2)) item) k = item.get k := by
    intro extra
    induction extra with
    | nil => exact fun item _ => rfl
    | cons e extra ih =>
        intro item hne
        rw [List.foldl_cons, ih _ fun e' he' => hne e' (List.mem_cons_of_mem _ he'), get_set,
          if_neg (Ne.symm (hne e List.mem_cons_self))]
  refine hset _ _ fun e he heq => hk ?_
  have hmem := (List.mem_filter.mp he).1
  rw [← heq]
  simp only [List.mem_cons, List.not_mem_nil, or_false] at hmem ⊢
  rcases hmem with rfl | rfl | rfl <;> simp

theorem mem_modify {xs : List Item} {f : Item → Item} {i : ℕ} {x : Item} (h : x ∈ xs.modify i f) :
    x ∈ xs ∨ ∃ y ∈ xs, x = f y := by
  obtain ⟨k, hk, rfl⟩ := List.mem_iff_getElem.mp h
  rw [List.length_modify] at hk
  rw [List.getElem_modify]
  split
  · exact Or.inr ⟨_, List.getElem_mem hk, rfl⟩
  · exact Or.inl (List.getElem_mem hk)

/-- Where an item of the routing cache comes from: it was there, or it is in `to_process` since `now`, an item that was
there before or a new one for a file. -/
def Origin (now : String) (b : BusinessCache) (moved : List MovedItem) (c : Category) (x : Item) : Prop :=
  x ∈ b.list c ∨ c = .toProcess ∧ x.get "timestamp" = .str now ∧
    ((∃ c', ∃ y ∈ b.list c', Untouched y x) ∨ ∃ m ∈ moved, Untouched (newTodoItem now m) x)

theorem timestamp_resetItem (item : Item) : (resetItem now item).get "timestamp" = .str now := by
  rw [resetItem, get_set, if_pos rfl]

theorem mem_takeFromList {b : BusinessCache} {driveId : String} {c : Category} {x : Item}
    (h : x ∈ (takeFromList b driveId).list c) : x ∈ b.list c := by
  unfold takeFromList at h
  split at h
  · exact h
  · exact forall_list_put (P := fun c items => x ∈ items → x ∈ b.list c) (fun hx => List.mem_of_mem_filter hx)
      (fun _ hx => hx) c h

theorem origin_addOneToTodo {b : BusinessCache} {m : MovedItem} {c : Category} {x : Item}
    (h : x ∈ (addOneToTodo now b m).list c) : Origin now b [m] c x := by
  unfold addOneToTodo at h
  split at h
  · exact Or.inl h
  · revert h
    refine forall_list_put (P := fun c items => x ∈ items → Origin now b [m] c x) (fun hx => ?_)
      (fun _ hx => Or.inl (mem_takeFromList hx)) c
    unfold todoList at hx
    split at hx
    · rcases mem_modify hx with hx | ⟨y, hy, rfl⟩
      · exact Or.inl hx
      · exact Or.inr ⟨rfl, timestamp_resetItem y, Or.inl ⟨_, y, hy, untouched_resetItem now y⟩⟩
    · split at hx
      · next found item hfound =>
        rcases List.mem_append.mp hx with hx | hx
        · exact Or.inl hx
        · rw [List.mem_singleton.mp hx]
          have hitem := List.mem_of_find?_eq_some (findIn_eq_some hfound).2
          exact Or.inr ⟨rfl, timestamp_resetItem item, Or.inl ⟨_, item, hitem, untouched_resetItem now item⟩⟩
      · rcases List.mem_append.mp hx with hx | hx
        · exact Or.inl hx
        · rw [List.mem_singleton.mp hx]
          exact Or.inr ⟨rfl, newTodoItem_get_other now m (by decide),
            Or.inr ⟨m, List.mem_singleton_self m, Untouched.refl _⟩⟩

theorem origin_foldl {moved : List MovedItem} {b : BusinessCache} {c : Category} {x : Item}
    (h : x ∈ (moved.foldl (addOneToTodo now) b).list c) : Origin now b moved c x := by
  induction moved generalizing b with
  | nil => exact Or.inl h
  | cons m moved ih =>
      have hone : ∀ {c y}, y ∈ (addOneToTodo now b m).list c →
          y ∈ b.list c ∨ c = .toProcess ∧ y.get "timestamp" = .str now ∧
            ((∃ c', ∃ z ∈ b.list c', Untouched z y) ∨ Untouched (newTodoItem now m) y) := by
        intro c y hy
        refine (origin_addOneToTodo hy).imp_right fun h => ⟨h.1, h.2.1, h.2.2.imp_right fun hnew => ?_⟩
        obtain ⟨m', hm', hsame⟩ := hnew
        rwa [List.mem_singleton.mp hm'] at hsame
      rcases ih h with hx | ⟨rfl, hnow, ⟨c', y, hy, hsame⟩ | ⟨m', hm', hsame⟩⟩
      · refine (hone hx).imp_right fun h => ⟨h.1, h.2.1, h.2.2.imp_right fun hnew => ?_⟩
        exact ⟨m, List.mem_cons_self, hnew⟩
      · refine Or.inr ⟨rfl, hnow, ?_⟩
        rcases hone hy with hy | ⟨-, -, ⟨c'', z, hz, hsame'⟩ | hnew⟩
        · exact Or.inl ⟨c', y, hy, hsame⟩
        · exact Or.inl ⟨c'', z, hz, hsame'.trans hsame⟩
        · exact Or.inr ⟨m, List.mem_cons_self, hnew.trans hsame⟩
      · exact Or.inr ⟨rfl, hnow, Or.inr ⟨m', List.mem_cons_of_mem _ hm', hsame⟩⟩

theorem origin_addToRoutingTodo {moved : List MovedItem} {b : BusinessCache} {c : Category} {x : Item}
    (h : x ∈ (addToRoutingTodo now b moved).list c) : Origin now b moved c x := by
  unfold addToRoutingTodo at h
  split at h
  · exact Or.inl h
  · -- the last write only makes sure that the list is there
    dsimp only at h
    rw [list_put, Function.update_eq_self] at h
    exact origin_foldl h

end Todo

/-! ### Restored Router documents -/

/-- The fields of an entry. -/
def routerFields (m : MovedItem) : RouterFields := ⟨m.klkJobId, m.collectionId, m.mandatePath⟩

/-- The fields of a Router document under their names. -/
def RouterFields.entries (d : RouterFields) : List (String × String) :=
  [("klk_job_id", d.klkJobId), ("collection_id", d.collectionId), ("mandate_path", d.mandatePath)]

/-- An entry has the fields of the Router document of its file, and so has the new item that is made of it. -/
def CarriesOwn (docs : RouterDocs) (m : MovedItem) : Prop :=
  let d := (docs m.driveFileId).getD {}
  routerFields m = d ∧ ∀ now, ∀ e ∈ d.entries,
    (newTodoItem now m).get e.1 = if e.2 = "" then .none else .str e.2

/-- An item of the routing cache was there before, or it is new, for a moved file, and has the fields of the Router
document of that file. -/
def WrittenOwn (docs : RouterDocs) (b : BusinessCache) (moved : List MovedItem) (x : Item) : Prop :=
  (∃ c, ∃ y ∈ b.list c, Untouched y x) ∨
    ∃ m ∈ moved, x.get "drive_file_id" = .str m.driveId ∧
      ∀ e ∈ ((docs m.driveFileId).getD {}).entries, x.get e.1 = if e.2 = "" then .none else .str e.2

/-- A job of a bookkeeper whose file could not be moved. -/
def moveFailed (jobType : String) (j : DeleteJob) : Bool :=
  !j.outcome.raises && hasDriveFile jobType j.outcome.driveFileId && !j.outcome.moveSuccess

/-- Every entry carries the fields of its own document, and so does every item that is written for one into a routing
cache; and a job whose file could not be moved changes no entry. -/
def Uncontaminated (jobType : String) (docs : RouterDocs) (jobs : List DeleteJob) : Prop :=
  (∀ m ∈ (deleteAll jobType docs jobs).movedToTodo, CarriesOwn docs m) ∧
    (∀ now b c, ∀ x ∈ (addToRoutingTodo now b (deleteAll jobType docs jobs).movedToTodo).list c,
      WrittenOwn docs b (deleteAll jobType docs jobs).movedToTodo x) ∧
    ∀ pre j, pre ++ [j] <+: jobs → moveFailed jobType j = true →
      (deleteAll jobType docs (pre ++ [j])).movedToTodo = (deleteAll jobType docs pre).movedToTodo

/-- A job whose file could not be moved has no Router document, or one with the fields of the last entry. -/
def Harmless (jobType : String) (docs : RouterDocs) (p : Progress) (j : DeleteJob) : Prop :=
  moveFailed jobType j = true → ∀ d, docs j.outcome.driveFileId = some d →
    ∀ m, p.movedToTodo.getLast? = some m → routerFields m = d

section Fields

variable {jobType : String} {docs : RouterDocs}

/-- A new item has the fields of its entry that are not empty. -/
theorem newTodoItem_get (now : String) (m : MovedItem) :
    ∀ e ∈ (routerFields m).entries, (newTodoItem now m).get e.1 = if e.2 = "" then .none else .str e.2 := by
  have hbase : ∀ k ∈ ["klk_job_id", "collection_id", "mandate_path"], (bareTodoItem now m).get k = .none := by
    intro k hk
    simp only [List.mem_cons, List.not_mem_nil, or_false] at hk
    rcases hk with rfl | rfl | rfl <;> rfl
  intro e he
  simp only [RouterFields.entries, routerFields, List.mem_cons, List.not_mem_nil, or_false] at he
  unfold newTodoItem
  rw [← bareTodoItem]
  rcases he with rfl | rfl | rfl <;> by_cases h₁ : m.klkJobId = "" <;> by_cases h₂ : m.collectionId = "" <;>
    by_cases h₃ : m.mandatePath = "" <;> simp [h₁, h₂, h₃, get_set, hbase]

theorem carriesOwn_of {m : MovedItem} (h : routerFields m = (docs m.driveFileId).getD {}) : CarriesOwn docs m :=
  ⟨h, fun now e he => newTodoItem_get now m e (h ▸ he)⟩

/-- What `_add_to_routing_todo` writes for entries that carry their own fields. -/
theorem writtenOwn_addToRoutingTodo {moved : List MovedItem} (h : ∀ m ∈ moved, CarriesOwn docs m) (now : String)
    (b : BusinessCache) (c : Category) : ∀ x ∈ (addToRoutingTodo now b moved).list c, WrittenOwn docs b moved x := by
  intro x hx
  rcases origin_addToRoutingTodo hx with hx | ⟨-, -, hold | ⟨m, hm, hsame⟩⟩
  · exact Or.inl ⟨c, x, hx, Untouched.refl x⟩
  · exact Or.inl hold
  · refine Or.inr ⟨m, hm, ?_, fun e he => ?_⟩
    · exact (hsame "drive_file_id" (by decide) (by decide)).trans (newTodoItem_get_other now m (by decide))
    · have hname : e.1 ≠ "status" ∧ e.1 ≠ "timestamp" := by
        simp only [RouterFields.entries, List.mem_cons, List.not_mem_nil, or_false] at he
        rcases he with rfl | rfl | rfl <;> simp
      exact (hsame e.1 hname.1 hname.2).trans ((h m hm).2 now e he)

theorem enrich_eq_self {d : RouterFields} {m : MovedItem} : enrich d m = m ↔ routerFields m = d := by
  constructor
  · intro h
    rw [← h]
    rfl
  · intro h
    rw [← h]
    rfl

/-- Enriching the last entry changes nothing iff it has the fields already. -/
theorem resetRouter_eq_self (driveFileId : String) (moved : List MovedItem) :
    resetRouter docs driveFileId moved = moved ↔
      ∀ d, docs driveFileId = some d → ∀ m, moved.getLast? = some m → routerFields m = d := by
  unfold resetRouter
  cases hdoc : docs driveFileId with
  | none => exact iff_of_true rfl fun d hd => nomatch hd
  | some d =>
      cases moved using List.reverseRecOn with
      | nil => exact iff_of_true rfl fun d _ m hm => nomatch hm
      | append_singleton moved m _ =>
          dsimp only
          rw [List.modifyLast_concat, List.append_cancel_left_eq, List.cons.injEq, and_iff_left rfl, enrich_eq_self]
          constructor
          · intro h d' hd' m' hm'
            rw [List.getLast?_concat] at hm'
            cases hd'
            cases hm'
            exact h
          · exact fun h => h d rfl m (List.getLast?_concat ..)

theorem ne_router (hjob : jobType ∈ ["apbookeeper", "exbookeeper"]) : jobType ≠ "router" := by
  intro heq
  subst heq
  exact absurd hjob (by decide)

/-- A job whose file could not be moved leaves the entries as they are iff it is harmless. -/
theorem moveFailed_unchanged (p : Progress) (j : DeleteJob) (hjob : jobType ∈ ["apbookeeper", "exbookeeper"]) :
    (moveFailed jobType j = true → (deleteJob jobType docs p j).movedToTodo = p.movedToTodo) ↔
      Harmless jobType docs p j := by
  refine imp_congr_right fun hfailed => ?_
  rw [moveFailed, Bool.and_eq_true, Bool.and_eq_true, Bool.not_eq_true', Bool.not_eq_true'] at hfailed
  obtain ⟨⟨hraises, hfile⟩, hmove⟩ := hfailed
  unfold deleteJob moveFile
  dsimp only
  rw [hraises, if_neg Bool.false_ne_true]
  dsimp only
  rw [if_neg (ne_router hjob), hfile, if_pos rfl, hmove, if_neg Bool.false_ne_true]
  exact resetRouter_eq_self j.outcome.driveFileId p.movedToTodo

/-- An iteration that is harmless keeps every entry with the fields of its own document. -/
theorem carriesOwn_deleteJob (hjob : jobType ∈ ["apbookeeper", "exbookeeper"]) {p : Progress} {j : DeleteJob}
    (hp : ∀ m ∈ p.movedToTodo, CarriesOwn docs m) (hj : Harmless jobType docs p j) :
    ∀ m ∈ (deleteJob jobType docs p j).movedToTodo, CarriesOwn docs m := by
  by_cases hfailed : moveFailed jobType j = true
  · rw [(moveFailed_unchanged p j hjob).mpr hj hfailed]
    exact hp
  · unfold deleteJob moveFile
    dsimp only
    rw [if_neg (ne_router hjob)]
    split
    · exact hp
    · next hraises =>
      dsimp only
      split
      · next hfile =>
        have hmove : j.outcome.moveSuccess = true := by
          rw [moveFailed, hfile, Bool.eq_false_iff.mpr hraises] at hfailed
          simpa using hfailed
        rw [hmove, if_pos rfl]
        -- the new entry is the one that is enriched
        intro m hm
        unfold resetRouter at hm
        split at hm
        · next hnone =>
          rcases List.mem_append.mp hm with hm | hm
          · exact hp m hm
          · rw [List.mem_singleton.mp hm]
            exact carriesOwn_of (by rw [hnone]; rfl)
        · next d hsome =>
          rw [List.modifyLast_concat] at hm
          rcases List.mem_append.mp hm with hm | hm
          · exact hp m hm
          · rw [List.mem_singleton.mp hm]
            refine carriesOwn_of ?_
            show d = (docs j.outcome.driveFileId).getD {}
            rw [hsome]
            rfl
      · exact hp

end Fields

/-- A job of a bookkeeper with a file on the drive. -/
def fileJob (jobId driveFileId : String) (moveSuccess : Bool) : DeleteJob :=
  ⟨jobId, "", ⟨false, driveFileId, jobId ++ ".pdf", moveSuccess⟩⟩

/-- A Router document for each file, named after it. -/
def namedDocs : RouterDocs := fun driveFileId => some ⟨"klk_" ++ driveFileId, "c", "m"⟩

/-- The items a domain has in its cache; none when nothing is cached. -/
def itemsOf (caches : Caches) (domain : String) (c : Category) : List Item :=
  ((caches domain).map fun b => b.list c).getD []

/-- The items of the failed jobs are in the lists they were in. -/
def KeepsFailed (before after : Category → List Item) (p : Progress) : Prop :=
  ∀ c, ∀ x ∈ before c, (∃ jobId ∈ p.failedJobs, goesBy x jobId = true) → x ∈ after c

/-- There is no item of a deleted job but in `to_process`, for a file that was moved back. -/
def DropsDeleted (after : Category → List Item) (p : Progress) : Prop :=
  ∀ c, ∀ x ∈ after c, (∃ jobId ∈ p.deletedJobs, goesBy x jobId = true) →
    c = .toProcess ∧ ∃ m ∈ p.movedToTodo, hasDriveId m.driveId x = true

/-- The request names no job, or every job fails, or no item goes by the id of a failed job. -/
def NoneToKeep (before : Category → List Item) (payload : DeletePayload) (outcomes : ℕ → Outcome) : Prop :=
  payload.jobIds = [] ∨ (∀ j ∈ deleteJobs payload outcomes, j.outcome.raises = true) ∨
    ∀ j ∈ deleteJobs payload outcomes, j.outcome.raises = true → ∀ c, ∀ x ∈ before c, goesBy x j.jobId = false

section Loop

variable {jobType : String} {docs : RouterDocs}

/-- The loop sorts the jobs by whether they raise. -/
theorem deleteAll_jobs (jobType : String) (docs : RouterDocs) (jobs : List DeleteJob) :
    (deleteAll jobType docs jobs).deletedJobs = (jobs.filter fun j => !j.outcome.raises).map DeleteJob.jobId ∧
      (deleteAll jobType docs jobs).failedJobs = (jobs.filter fun j => j.outcome.raises).map DeleteJob.jobId := by
  induction jobs using List.reverseRecOn with
  | nil => exact ⟨rfl, rfl⟩
  | append_singleton jobs j ih =>
      rw [deleteAll_concat, List.filter_append, List.filter_append, List.map_append, List.map_append, ← ih.1, ← ih.2]
      unfold deleteJob
      cases hraises : j.outcome.raises <;> simp [hraises]

/-- Only the file of a job that is deleted is moved. -/
theorem moved_eq_nil (jobs : List DeleteJob) (h : ∀ j ∈ jobs, j.outcome.raises = true) :
    (deleteAll jobType docs jobs).movedToTodo = [] := by
  induction jobs using List.reverseRecOn with
  | nil => rfl
  | append_singleton jobs j ih =>
      rw [deleteAll_concat, deleteJob, if_pos (h j (by simp))]
      exact ih fun j' hj' => h j' (List.mem_append_left _ hj')

end Loop

section Caches

variable (jobType : String) (docs : RouterDocs) (now : String) (caches : Caches) (payload : DeletePayload)
  (outcomes : ℕ → Outcome)

theorem update_self (caches : Caches) (domain : String) (f : BusinessCache → BusinessCache) :
    caches.update domain f domain = (caches domain).map f := Function.update_self ..

theorem update_of_ne (caches : Caches) {domain domain' : String} (f : BusinessCache → BusinessCache)
    (h : domain' ≠ domain) : caches.update domain f domain' = caches domain' := Function.update_of_ne h ..

/-- The cache of the domain, after the delete. -/
def domainAfter (b : BusinessCache) : BusinessCache :=
  let jobs := deleteJobs payload outcomes
  let p := deleteAll jobType docs jobs
  let cleared := if p.deletedJobs = [] then b else updateCacheAfterDelete b (jobs.map DeleteJob.jobId)
  if jobType = "router" ∧ p.movedToTodo ≠ [] then addToRoutingTodo now cleared p.movedToTodo else cleared

/-- Of the job types with files on the drive, the cache of the router is the one the files are put into. -/
theorem handleJobDelete_domain (hjobs : payload.jobIds ≠ []) :
    (handleJobDelete jobType docs now caches payload outcomes).2 (domainOf jobType) =
      (caches (domainOf jobType)).map (domainAfter jobType docs now payload outcomes) := by
  unfold handleJobDelete domainAfter
  rw [if_neg hjobs]
  dsimp only
  generalize deleteAll jobType docs (deleteJobs payload outcomes) = p
  have hcleared : (if p.deletedJobs = [] then caches else caches.update (domainOf jobType) fun b =>
      updateCacheAfterDelete b ((deleteJobs payload outcomes).map DeleteJob.jobId)) (domainOf jobType) =
      (caches (domainOf jobType)).map fun b => if p.deletedJobs = [] then b else
        updateCacheAfterDelete b ((deleteJobs payload outcomes).map DeleteJob.jobId) := by
    split
    · exact (congrFun Option.map_id _).symm
    · exact update_self ..
  by_cases hrouter : jobType = "router"
  · subst hrouter
    by_cases hmoved : p.movedToTodo = []
    · simp only [hmoved, ne_eq, not_true, and_false, if_false]
      exact hcleared
    · have htype : "router" ∈ ["router", "apbookeeper", "exbookeeper"] := by decide
      simp only [htype, hmoved, ne_eq, not_false_iff, and_self, if_true]
      show Caches.update _ (domainOf "router") _ (domainOf "router") = _
      rw [update_self, hcleared, Option.map_map]
      rfl
  · simp only [hrouter, false_and, if_false]
    split
    · next hmoved =>
      have hdomain : domainOf jobType ≠ "routing" := by
        have htype := hmoved.1
        simp only [List.mem_cons, List.not_mem_nil, or_false] at htype
        rcases htype with rfl | rfl | rfl
        · exact absurd rfl hrouter
        · decide
        · decide
      rw [update_of_ne _ _ hdomain]
      exact hcleared
    · exact hcleared

variable {jobType docs now payload outcomes}

/-- An item of the domain, after a delete of some job, goes by no id of the payload, or is in `to_process` since then:
for a file that was moved back, if it goes by such an id. -/
theorem mem_domainAfter {b : BusinessCache} {c : Category} {x : Item}
    (hdeleted : (deleteAll jobType docs (deleteJobs payload outcomes)).deletedJobs ≠ [])
    (hx : x ∈ (domainAfter jobType docs now payload outcomes b).list c) {j : DeleteJob}
    (hj : j ∈ deleteJobs payload outcomes) (hid : goesBy x j.jobId = true) :
    c = .toProcess ∧ x.get "timestamp" = .str now ∧
      ∃ m ∈ (deleteAll jobType docs (deleteJobs payload outcomes)).movedToTodo, hasDriveId m.driveId x = true := by
  have hcleared : ∀ c', ∀ y ∈
      (updateCacheAfterDelete b ((deleteJobs payload outcomes).map DeleteJob.jobId)).list c', goesBy y j.jobId = false := by
    intro c' y hy
    rw [list_updateCacheAfterDelete, List.mem_filter, Bool.not_eq_true', List.any_eq_false] at hy
    exact Bool.eq_false_iff.mpr (hy.2 _ (List.mem_map_of_mem hj))
  have hnot : ∀ c', ∀ y ∈ (updateCacheAfterDelete b ((deleteJobs payload outcomes).map DeleteJob.jobId)).list c',
      SameIds y x → False := by
    intro c' y hy hsame
    have hfalse := hcleared c' y hy
    rw [← hsame.goesBy_eq, hid] at hfalse
    cases hfalse
  unfold domainAfter at hx
  dsimp only at hx
  rw [if_neg hdeleted] at hx
  split at hx
  · rcases origin_addToRoutingTodo hx with hx | ⟨hc, hnow, ⟨c', y, hy, hsame⟩ | ⟨m, hm, hsame⟩⟩
    · exact (hnot c x hx (SameIds.refl x)).elim
    · exact (hnot c' y hy hsame.sameIds).elim
    · refine ⟨hc, hnow, m, hm, ?_⟩
      have hname : x.get "id" = .str m.driveId :=
        (hsame "id" (by decide) (by decide)).trans (newTodoItem_get_other now m (by decide))
      simp [hasDriveId, has, hname, Scalar.same]
  · exact (hnot c x hx (SameIds.refl x)).elim

/-- When every job fails nothing is written. -/
theorem domainAfter_of_raises (b : BusinessCache) (h : ∀ j ∈ deleteJobs payload outcomes, j.outcome.raises = true) :
    domainAfter jobType docs now payload outcomes b = b := by
  have hnone : (deleteJobs payload outcomes).filter (fun j => !j.outcome.raises) = [] :=
    List.filter_eq_nil_iff.mpr fun j hj => by rw [h j hj]; exact Bool.false_ne_true
  have hdeleted := (deleteAll_jobs jobType docs (deleteJobs payload outcomes)).1
  rw [hnone] at hdeleted
  simp only [domainAfter, moved_eq_nil _ h, ne_eq, not_true, and_false, if_false]
  exact if_pos hdeleted

end Caches

theorem jobIds_of_filter {jobs : List DeleteJob} {p : DeleteJob → Bool} {jobId : String}
    (h : jobId ∈ (jobs.filter p).map DeleteJob.jobId) : ∃ j ∈ jobs, p j = true ∧ j.jobId = jobId := by
  obtain ⟨j, hj, rfl⟩ := List.mem_map.mp h
  exact ⟨j, (List.mem_filter.mp hj).1, (List.mem_filter.mp hj).2, rfl⟩

section After

variable {jobType : String} {docs : RouterDocs} {now : String} {caches : Caches} {payload : DeletePayload}
  {outcomes : ℕ → Outcome}

theorem handleJobDelete_fst (hjobs : payload.jobIds ≠ []) :
    (handleJobDelete jobType docs now caches payload outcomes).1 =
      deleteAll jobType docs (deleteJobs payload outcomes) := by
  rw [handleJobDelete, if_neg hjobs]

/-- The items of the domain after the delete. -/
theorem itemsOf_handleJobDelete (hjobs : payload.jobIds ≠ []) (c : Category) :
    itemsOf (handleJobDelete jobType docs now caches payload outcomes).2 (domainOf jobType) c =
      ((caches (domainOf jobType)).map fun b =>
        (domainAfter jobType docs now payload outcomes b).list c).getD [] := by
  rw [itemsOf, handleJobDelete_domain jobType docs now caches payload outcomes hjobs, Option.map_map]
  rfl

/-- The items of deleted jobs go, whatever fails. -/
theorem dropsDeleted_handleJobDelete (hjobs : payload.jobIds ≠ []) :
    DropsDeleted (itemsOf (handleJobDelete jobType docs now caches payload outcomes).2 (domainOf jobType))
      (deleteAll jobType docs (deleteJobs payload outcomes)) := by
  intro c x hx hdel
  obtain ⟨jobId, hjobId, hid⟩ := hdel
  rw [itemsOf_handleJobDelete hjobs] at hx
  have hne := List.ne_nil_of_mem hjobId
  rw [(deleteAll_jobs jobType docs (deleteJobs payload outcomes)).1] at hjobId
  obtain ⟨j, hj, -, rfl⟩ := jobIds_of_filter hjobId
  cases hb : caches (domainOf jobType) with
  | none =>
      rw [hb] at hx
      cases hx
  | some b =>
      rw [hb] at hx
      obtain ⟨hc, -, hmoved⟩ := mem_domainAfter hne hx hj hid
      exact ⟨hc, hmoved⟩

/-- The items of failed jobs stay where there is nothing to keep beside a job that is deleted. -/
theorem keepsFailed_of_noneToKeep (hjobs : payload.jobIds ≠ [])
    (hnone : NoneToKeep (itemsOf caches (domainOf jobType)) payload outcomes) :
    KeepsFailed (itemsOf caches (domainOf jobType))
      (itemsOf (handleJobDelete jobType docs now caches payload outcomes).2 (domainOf jobType))
      (deleteAll jobType docs (deleteJobs payload outcomes)) := by
  intro c x hx hkeep
  obtain ⟨jobId, hjobId, hid⟩ := hkeep
  rcases hnone with hnil | hall | hfree
  · exact absurd hnil hjobs
  · rw [itemsOf_handleJobDelete hjobs]
    cases hb : caches (domainOf jobType) with
    | none => simp [itemsOf, hb] at hx
    | some b => simpa [itemsOf, hb, domainAfter_of_raises b hall] using hx
  · rw [(deleteAll_jobs jobType docs (deleteJobs payload outcomes)).2] at hjobId
    obtain ⟨j, hj, hraises, rfl⟩ := jobIds_of_filter hjobId
    rw [hfree j hj hraises c x hx] at hid
    cases hid

/-- And only there: beside a job that is deleted, an item of a failed one can only be there again, with a new time. -/
theorem noneToKeep_of_keepsFailed (hjobs : payload.jobIds ≠ [])
    (hfresh : ∀ c, ∀ x ∈ itemsOf caches (domainOf jobType) c, x.get "timestamp" ≠ .str now)
    (hkeeps : KeepsFailed (itemsOf caches (domainOf jobType))
      (itemsOf (handleJobDelete jobType docs now caches payload outcomes).2 (domainOf jobType))
      (deleteAll jobType docs (deleteJobs payload outcomes))) :
    NoneToKeep (itemsOf caches (domainOf jobType)) payload outcomes := by
  obtain ⟨hdeleted, hfailed⟩ := deleteAll_jobs jobType docs (deleteJobs payload outcomes)
  refine Or.inr (or_iff_not_imp_left.mpr fun hsome j hj hraises c x hx => ?_)
  rw [Bool.eq_false_iff]
  intro hid
  -- the item is taken out with those of the deleted jobs
  have hmem := hkeeps c x hx ⟨j.jobId, by
    rw [hfailed]
    exact List.mem_map_of_mem (List.mem_filter.mpr ⟨hj, hraises⟩), hid⟩
  have hne : (deleteAll jobType docs (deleteJobs payload outcomes)).deletedJobs ≠ [] := by
    rw [hdeleted]
    intro hnil
    refine hsome fun j' hj' => ?_
    have hfilter := List.filter_eq_nil_iff.mp (List.map_eq_nil_iff.mp hnil) j' hj'
    simpa using hfilter
  rw [itemsOf_handleJobDelete hjobs] at hmem
  cases hb : caches (domainOf jobType) with
  | none =>
      rw [hb] at hmem
      cases hmem
  | some b =>
      rw [hb] at hmem
      exact hfresh c x hx (mem_domainAfter hne hmem hj hid).2.1

end After

/-- The first job is deleted, the second one fails. -/
def secondFails : ℕ → Outcome := fun i => ⟨i = 1, "", "", false⟩

/-- A cache with an item for the first job only. -/
def firstItemOnly : Caches := fun domain => if domain = "bank" then some (oneOpenItem "a") else none

/-- A cache with an item for each of two jobs. -/
def twoItems : Caches := fun domain =>
  if domain = "bank" then some ((oneOpenItem "a").put .pending [itemOf "b"]) else none

end Pinnokio.JobActions
