import Pinnokio.Lib.Documents
import Pinnokio.Lib.Runs
import Pinnokio.Lib.Text
import Mathlib.Data.Set.Function

/-!
# Tasks and the scheduler collection

A task of a mandate is a document `{mandate_path}/tasks/{task_id}`.  What the cron needs of a planned task is stored a
second time in the collection `scheduled_tasks`, and kept in step by the calls that create, update and delete tasks.

* `createTask`, `updateTask`, `deleteTask` — the calls, with the two documents they write;
* `Mirrors` — the collection shows an enabled document exactly for a task that is to be run, with its next time;
* `mirrors_always_iff` — it does so at every point of a sequence of calls, exactly when every call meets
  `KeepsMirror`.
-/

namespace Pinnokio.Scheduler

open Pinnokio.Runs Pinnokio.Text

/-! ### The documents -/

/-- A document of `scheduled_tasks`. -/
structure SchedulerDoc where
  mandatePath : String
  taskId : Value
  jobType : String
  cronExpression : Value
  timezone : Value
  nextExecutionUtc : Value
  nextExecutionLocalTime : Value
  enabled : Value
  userId : Value
  companyId : Value
  missionTitle : Value

/-- The tasks by mandate path and id, and the scheduler documents by job id. -/
structure TaskStore where
  tasks : Dict (String × String) Document
  scheduledTasks : Dict String SchedulerDoc

/-- No task yet. -/
def TaskStore.empty : TaskStore := ⟨∅, ∅⟩

/-- `f"{mandate_path.replace('/', '_')}_{task_id}"`. -/
def jobId (key : String × String) : String := replaceChar key.1 '/' "_" ++ "_" ++ key.2

/-- `d.get(k)`. -/
def getOrNone (d : Document) (k : String) : Value := (d.get? k).getD (.scalar .none)

/-- `t.get(k, {})`, of which a key is read next; `none` when that raises. -/
def mapField (t : Document) (k : String) : Option Document :=
  match t.get? k with
  | none => some []
  | some v => v.asMap

/-- `execution_plan in ["SCHEDULED", "ONE_TIME"]`. -/
def planned (t : Document) : Bool := (getOrNone t "execution_plan").isOneOf ["SCHEDULED", "ONE_TIME"]

/-- Both next execution times are there. -/
def filled (schedule : Document) : Bool :=
  (getOrNone schedule "next_execution_utc").truthy && (getOrNone schedule "next_execution_local_time").truthy

/-! ### The calls -/

/-- The document that `_save_task_to_scheduler` writes. -/
def schedulerData (mandatePath : String) (t schedule mission : Document) : SchedulerDoc where
  mandatePath := mandatePath
  taskId := getOrNone t "task_id"
  jobType := "scheduled_task"
  cronExpression := getOrNone schedule "cron_expression"
  timezone := getOrNone schedule "timezone"
  nextExecutionUtc := getOrNone schedule "next_execution_utc"
  nextExecutionLocalTime := getOrNone schedule "next_execution_local_time"
  enabled := (t.get? "enabled").getD (.scalar (.bool true))
  userId := getOrNone t "user_id"
  companyId := getOrNone t "company_id"
  missionTitle := getOrNone mission "title"

/-- `_save_task_to_scheduler`; an exception is logged and nothing is written. -/
def saveTaskToScheduler (s : TaskStore) (key : String × String) (t : Document) : TaskStore :=
  match mapField t "schedule" with
  | none => s
  | some schedule =>
      if filled schedule then
        match mapField t "mission" with
        | none => s
        | some mission =>
            { s with scheduledTasks := s.scheduledTasks.set (jobId key) (schedulerData key.1 t schedule mission) }
      else s

/-- The id of the new task: the one it comes with, if that is not empty, or a drawn one. -/
def taskIdOf (taskData : Document) (drawn : String) : String :=
  match taskData.get? "task_id" with
  | some (.scalar v) => if v.truthy then v.toStr else drawn
  | _ => drawn

/-- The task as it is stored. -/
def createdTask (taskData : Document) (drawn now : String) : Document :=
  let identified :=
    if (getOrNone taskData "task_id").truthy then taskData
    else Dict.setList "task_id" (.text drawn) taskData
  Dict.setList "execution_count" (.scalar (.int 0))
    (Dict.setList "updated_at" (.text now) (Dict.setList "created_at" (.text now) identified))

/-- `create_task`. -/
def createTask (s : TaskStore) (mandatePath : String) (taskData : Document) (drawn now : String) : TaskStore :=
  let key := (mandatePath, taskIdOf taskData drawn)
  let t := createdTask taskData drawn now
  let stored := { s with tasks := s.tasks.set key t }
  if planned t then saveTaskToScheduler stored key t else stored

/-- A time of the scheduler: the one of the updates, or the one of the task if it is not empty. -/
def syncedTime (updatesSchedule schedule : Document) (k : String) (current : Value) : Value :=
  match updatesSchedule.get? k with
  | some v => v
  | none =>
      match schedule.get? k with
      | some v => if v.truthy then v else current
      | none => current

/-- The other fields of the schedule. -/
def syncedField (updatesSchedule schedule : Document) (k : String) (current : Value) : Value :=
  match updatesSchedule.get? k with
  | some v => v
  | none => (schedule.get? k).getD current

/-- `mission.title`, of the updates or of the task. -/
def syncedTitle (t : Document) (updates : Updates) (current : Value) : Value :=
  match (updates.get? ["mission"]).bind Value.asMap with
  | some mission => (mission.get? "title").getD current
  | none =>
      match (t.get? "mission").bind Value.asMap with
      | some mission => (mission.get? "title").getD current
      | none => current

/-- `enabled`, of the updates or of the task. -/
def syncedEnabled (t : Document) (updates : Updates) (current : Value) : Value :=
  match updates.get? ["enabled"] with
  | some v => v
  | none => (t.get? "enabled").getD current

/-- The scheduler document after the synchronisation. -/
def syncedDoc (doc : SchedulerDoc) (t schedule : Document) (updates : Updates) : SchedulerDoc :=
  let updatesSchedule := ((updates.get? ["schedule"]).bind Value.asMap).getD []
  { doc with
    nextExecutionUtc := syncedTime updatesSchedule schedule "next_execution_utc" doc.nextExecutionUtc
    nextExecutionLocalTime :=
      syncedTime updatesSchedule schedule "next_execution_local_time" doc.nextExecutionLocalTime
    cronExpression := syncedField updatesSchedule schedule "cron_expression" doc.cronExpression
    timezone := syncedField updatesSchedule schedule "timezone" doc.timezone
    enabled := syncedEnabled t updates doc.enabled
    missionTitle := syncedTitle t updates doc.missionTitle }

/-- `_update_scheduler`; an exception is logged and nothing is written. -/
def updateScheduler (s : TaskStore) (key : String × String) (t : Document) (updates : Updates) : TaskStore :=
  match s.scheduledTasks.get? (jobId key) with
  | none => s
  | some doc =>
      match mapField t "schedule" with
      | none => s
      | some schedule =>
          { s with scheduledTasks := s.scheduledTasks.set (jobId key) (syncedDoc doc t schedule updates) }

/-- `updates["updated_at"] = now`. -/
def stamped (updates : Updates) (now : String) : Updates := updates.set ["updated_at"] (.text now)

/-- `update_task`; the second component is what it returns. -/
def updateTask (s : TaskStore) (key : String × String) (updates : Updates) (now : String) : TaskStore × Bool :=
  match s.tasks.get? key with
  | none => (s, false)
  | some t =>
      match t.update (stamped updates now) with
      | none => (s, false)
      | some t' =>
          let stored := { s with tasks := s.tasks.set key t' }
          (if planned t' then updateScheduler stored key t' (stamped updates now) else stored, true)

/-- `delete_task`. -/
def deleteTask (s : TaskStore) (key : String × String) : TaskStore :=
  ⟨s.tasks.erase key, s.scheduledTasks.erase (jobId key)⟩

/-- A call; `drawn` is the id that a new task without one gets. -/
inductive TaskCall where
  | create (mandatePath : String) (taskData : Document) (drawn now : String)
  | update (key : String × String) (updates : Updates) (now : String)
  | delete (key : String × String)

/-- The task of a call. -/
def TaskCall.key : TaskCall → String × String
  | .create mandatePath taskData drawn _ => (mandatePath, taskIdOf taskData drawn)
  | .update key _ _ => key
  | .delete key => key

/-- One call. -/
def applyTaskCall (s : TaskStore) : TaskCall → TaskStore
  | .create mandatePath taskData drawn now => createTask s mandatePath taskData drawn now
  | .update key updates now => (updateTask s key updates now).1
  | .delete key => deleteTask s key

/-! ### The mirror -/

/-- `enabled` is `False`. -/
def disabled (t : Document) : Bool := ((t.get? "enabled").map (Value.isBool false)).getD false

/-- The next execution of a task that is to be run: planned, not disabled, with both times. -/
def due (t : Document) : Option Value :=
  match mapField t "schedule" with
  | none => none
  | some schedule =>
      if planned t && !disabled t && filled schedule then some (getOrNone schedule "next_execution_utc") else none

/-- The next execution that an enabled document shows. -/
def shown (doc : SchedulerDoc) : Option Value :=
  if doc.enabled.isBool true then some doc.nextExecutionUtc else none

/-- The task that is to be run has an enabled document with its next execution, any other task has none. -/
def Mirrors (s : TaskStore) (key : String × String) : Prop :=
  (s.scheduledTasks.get? (jobId key)).bind shown = (s.tasks.get? key).bind due

/-- `enabled` is missing or a truth value. -/
def booleanEnabled (t : Document) : Bool :=
  ((t.get? "enabled").map fun v => v.isBool true || v.isBool false).getD true

/-- The new task gets a scheduler document. -/
def saved (t : Document) : Bool :=
  planned t && ((mapField t "schedule").map filled).getD false && (mapField t "mission").isSome

/-- The value of `enabled` that the scheduler document has after an update. -/
def enabledAfter (t : Document) (doc : SchedulerDoc) : Value := (t.get? "enabled").getD doc.enabled

/-- The updated task fits the scheduler document: there is one if the task is to be run, it is one that can be
synchronised, and an enabled one has both times. -/
def FitsScheduler (t t' : Document) : Option SchedulerDoc → Prop
  | none => due t' = none
  | some doc =>
      match mapField t' "schedule" with
      | none => due t = none
      | some schedule =>
          if (enabledAfter t' doc).isBool true then filled schedule = true
          else filled schedule = false ∨ disabled t' = true

/-- The call leaves the two documents in step. -/
def KeepsMirror (s : TaskStore) : TaskCall → Prop
  | .create mandatePath taskData drawn now =>
      let t := createdTask taskData drawn now
      if saved t then booleanEnabled t = true
      else (s.tasks.get? (mandatePath, taskIdOf taskData drawn)).bind due = due t
  | .update key updates now =>
      match s.tasks.get? key with
      | none => True
      | some t =>
          match t.update (stamped updates now) with
          | none => True
          | some t' =>
              if planned t' then FitsScheduler t t' (s.scheduledTasks.get? (jobId key)) else due t = none
  | .delete _ => True

/-! ### One call -/

theorem due_of_not_planned {t : Document} (h : planned t = false) : due t = none := by
  unfold due
  split <;> simp [h]

theorem disabled_of_bool {t : Document} {b : Bool} {v : Value} (h : t.get? "enabled" = some v)
    (hv : v.isBool b = true) : disabled t = !b := by
  cases v with
  | scalar x =>
      cases x with
      | bool c =>
          have hb : c = b := by simpa [Value.isBool] using hv
          cases b <;> simp [disabled, h, hb, Value.isBool]
      | none | int _ | str _ => cases hv
  | list _ | map _ => cases hv

/-- A call leaves the documents of the other tasks, if their job ids differ. -/
theorem applyTaskCall_other (s : TaskStore) {c : TaskCall} {key : String × String} (hkey : key ≠ c.key)
    (hjob : jobId key ≠ jobId c.key) :
    (applyTaskCall s c).tasks.get? key = s.tasks.get? key ∧
      (applyTaskCall s c).scheduledTasks.get? (jobId key) = s.scheduledTasks.get? (jobId key) := by
  cases c with
  | create mandatePath taskData drawn now =>
      simp only [applyTaskCall, createTask, saveTaskToScheduler, TaskCall.key] at *
      split
      · split
        · simp [Dict.get?_set, hkey]
        · split
          · split
            · simp [Dict.get?_set, hkey]
            · simp [Dict.get?_set, hkey, hjob]
          · simp [Dict.get?_set, hkey]
      · simp [Dict.get?_set, hkey]
  | update k updates now =>
      simp only [applyTaskCall, updateTask, updateScheduler, TaskCall.key] at *
      split
      · exact ⟨rfl, rfl⟩
      · split
        · exact ⟨rfl, rfl⟩
        · dsimp only
          split
          · split
            · simp [Dict.get?_set, hkey]
            · split
              · simp [Dict.get?_set, hkey]
              · simp [Dict.get?_set, hkey, hjob]
          · simp [Dict.get?_set, hkey]
  | delete k =>
      simp only [applyTaskCall, deleteTask, TaskCall.key] at *
      simp [Dict.get?_erase, hkey, hjob]

/-- What `create_task` leaves in the collection. -/
theorem createTask_scheduledTasks (s : TaskStore) (mandatePath : String) (taskData : Document) (drawn now : String) :
    let t := createdTask taskData drawn now
    let key := (mandatePath, taskIdOf taskData drawn)
    (saved t = false ∧ (createTask s mandatePath taskData drawn now).scheduledTasks = s.scheduledTasks) ∨
      ∃ schedule mission, saved t = true ∧ planned t = true ∧ mapField t "schedule" = some schedule ∧
        filled schedule = true ∧ (createTask s mandatePath taskData drawn now).scheduledTasks =
          s.scheduledTasks.set (jobId key) (schedulerData mandatePath t schedule mission) := by
  intro t key
  unfold createTask saveTaskToScheduler
  cases hplan : planned t with
  | false => exact Or.inl ⟨by simp [saved, hplan], by simp [t, hplan]⟩
  | true =>
      cases hsched : mapField t "schedule" with
      | none => exact Or.inl ⟨by simp [saved, hsched], by simp [t, hplan, hsched]⟩
      | some schedule =>
          cases hfill : filled schedule with
          | false => exact Or.inl ⟨by simp [saved, hsched, hfill], by simp [t, hplan, hsched, hfill]⟩
          | true =>
              cases hmission : mapField t "mission" with
              | none => exact Or.inl ⟨by simp [saved, hmission], by simp [t, hplan, hsched, hfill, hmission]⟩
              | some mission =>
                  refine Or.inr ⟨schedule, mission, ?_, rfl, rfl, hfill, ?_⟩
                  · simp [saved, hplan, hsched, hfill, hmission]
                  · simp [t, key, hplan, hsched, hfill, hmission]

theorem createTask_task (s : TaskStore) (mandatePath : String) (taskData : Document) (drawn now : String) :
    (createTask s mandatePath taskData drawn now).tasks.get? (mandatePath, taskIdOf taskData drawn) =
      some (createdTask taskData drawn now) := by
  unfold createTask saveTaskToScheduler
  dsimp only
  split
  · split
    · simp
    · split
      · split <;> simp
      · simp
  · simp

/-- The document of a new task shows it as it is to be run, if `enabled` is a truth value. -/
theorem shown_schedulerData {mandatePath : String} {t schedule : Document} (mission : Document)
    (hplan : planned t = true) (hsched : mapField t "schedule" = some schedule) (hfill : filled schedule = true) :
    shown (schedulerData mandatePath t schedule mission) = due t ↔ booleanEnabled t = true := by
  have hdue : due t = if disabled t then none else some (getOrNone schedule "next_execution_utc") := by
    unfold due
    rw [hsched]
    cases hd : disabled t <;> simp [hplan, hfill]
  rw [hdue]
  unfold shown schedulerData booleanEnabled disabled
  dsimp only
  cases henabled : t.get? "enabled" with
  | none => simp [Value.isBool]
  | some v =>
      cases htrue : v.isBool true with
      | true =>
          have hno : v.isBool false = false := by
            have := disabled_of_bool henabled htrue
            simpa [disabled, henabled] using this
          simp [htrue, hno]
      | false => cases hfalse : v.isBool false <;> simp [htrue, hfalse]

theorem mirrors_createTask {s : TaskStore} {mandatePath : String} {taskData : Document} {drawn : String}
    (h : Mirrors s (mandatePath, taskIdOf taskData drawn)) (now : String) :
    Mirrors (createTask s mandatePath taskData drawn now) (mandatePath, taskIdOf taskData drawn) ↔
      KeepsMirror s (.create mandatePath taskData drawn now) := by
  unfold Mirrors KeepsMirror at *
  rw [createTask_task, Option.bind_some]
  rcases createTask_scheduledTasks s mandatePath taskData drawn now with
    ⟨hsaved, hstore⟩ | ⟨schedule, mission, hsaved, hplan, hsched, hfill, hstore⟩
  · dsimp only
    rw [hstore, hsaved, if_neg (by simp), h]
  · dsimp only
    rw [hstore, hsaved, if_pos rfl, Dict.get?_set_self, Option.bind_some]
    exact shown_schedulerData mission hplan hsched hfill

/-- A time that the schedule of the task has is the one that is synchronised. -/
theorem syncedTime_eq {updatesSchedule schedule : Document} {k : String} (current : Value)
    (htime : (getOrNone schedule k).truthy = true) (h : updatesSchedule = [] ∨ updatesSchedule = schedule) :
    syncedTime updatesSchedule schedule k current = getOrNone schedule k := by
  unfold syncedTime getOrNone at *
  cases hk : schedule.get? k with
  | none => simp [hk, Value.truthy, Scalar.truthy] at htime
  | some v =>
      rw [hk, Option.getD_some] at htime
      rcases h with rfl | rfl
      · simp [Document.get?, Dict.getList, htime]
      · simp [hk]

/-- What `update_task` leaves in the collection. -/
theorem updateTask_scheduledTasks (s : TaskStore) (key : String × String) (updates : Updates) (now : String) :
    (updateTask s key updates now).1.scheduledTasks = s.scheduledTasks ∨
      ∃ doc doc', s.scheduledTasks.get? (jobId key) = some doc ∧
        (updateTask s key updates now).1.scheduledTasks = s.scheduledTasks.set (jobId key) doc' := by
  unfold updateTask updateScheduler
  split
  · exact Or.inl rfl
  · split
    · exact Or.inl rfl
    · dsimp only
      split
      · split
        · exact Or.inl rfl
        · next doc hdoc =>
          split
          · exact Or.inl rfl
          · exact Or.inr ⟨doc, _, hdoc, rfl⟩
      · exact Or.inl rfl

/-- What a synchronised document shows. -/
theorem syncedDoc_eq (doc : SchedulerDoc) {t t' schedule : Document} {updates : Updates}
    (hupdate : t.update updates = some t') (hsched : mapField t' "schedule" = some schedule) :
    (syncedDoc doc t' schedule updates).enabled = enabledAfter t' doc ∧
      (filled schedule = true → (syncedDoc doc t' schedule updates).nextExecutionUtc =
        getOrNone schedule "next_execution_utc") := by
  constructor
  · unfold syncedDoc syncedEnabled enabledAfter
    dsimp only
    cases hu : updates.get? ["enabled"] with
    | none => rfl
    | some v => simp [Document.get?_update hupdate hu]
  · intro hfill
    rw [filled, Bool.and_eq_true] at hfill
    refine syncedTime_eq _ hfill.1 ?_
    -- a schedule in the updates is the schedule of the task
    cases hm : (updates.get? ["schedule"]).bind Value.asMap with
    | none => exact Or.inl rfl
    | some m =>
        obtain ⟨v, hv, hmap⟩ := Option.bind_eq_some_iff.mp hm
        rw [mapField, Document.get?_update hupdate hv] at hsched
        exact Or.inr (Option.some.inj (hmap.symm.trans hsched))

/-- The synchronised document of a planned task shows it as it is to be run. -/
theorem shown_syncedDoc {doc : SchedulerDoc} {t t' schedule : Document} {updates : Updates}
    (hupdate : t.update updates = some t') (hplan : planned t' = true)
    (hsched : mapField t' "schedule" = some schedule) :
    shown (syncedDoc doc t' schedule updates) = due t' ↔
      if (enabledAfter t' doc).isBool true then filled schedule = true
      else filled schedule = false ∨ disabled t' = true := by
  obtain ⟨henabled, hnext⟩ := syncedDoc_eq doc hupdate hsched
  have hdue : due t' =
      if !disabled t' && filled schedule then some (getOrNone schedule "next_execution_utc") else none := by
    unfold due
    rw [hsched]
    simp only [hplan, Bool.true_and]
  rw [hdue]
  unfold shown
  rw [henabled]
  split
  · next htrue =>
    have hactive : disabled t' = false := by
      unfold enabledAfter at htrue
      cases hv : t'.get? "enabled" with
      | none => simp [disabled, hv]
      | some v =>
          rw [hv] at htrue
          exact disabled_of_bool hv htrue
    cases hfill : filled schedule with
    | true => simp [hactive, hnext hfill]
    | false => simp
  · cases hfill : filled schedule <;> cases hd : disabled t' <;> simp

theorem mirrors_updateTask {s : TaskStore} {key : String × String} (h : Mirrors s key) (updates : Updates)
    (now : String) :
    Mirrors (updateTask s key updates now).1 key ↔ KeepsMirror s (.update key updates now) := by
  unfold KeepsMirror updateTask
  dsimp only
  split
  · exact iff_of_true h trivial
  · next t ht =>
    split
    · exact iff_of_true h trivial
    · next t' hu =>
      rw [Mirrors, ht, Option.bind_some] at h
      dsimp only
      split
      · next hplan =>
        unfold updateScheduler FitsScheduler
        dsimp only
        cases hdoc : s.scheduledTasks.get? (jobId key) with
        | none => simp [Mirrors, hdoc, eq_comm]
        | some doc =>
            rw [hdoc, Option.bind_some] at h
            cases hsched : mapField t' "schedule" with
            | none =>
                have hdue : due t' = none := by simp [due, hsched]
                simp [Mirrors, hdoc, h, hdue]
            | some schedule =>
                simp only [Mirrors, Dict.get?_set_self, Option.bind_some]
                exact shown_syncedDoc hu hplan hsched
      · next hplan =>
        simp [Mirrors, h, due_of_not_planned (by simpa using hplan)]

theorem mirrors_deleteTask (s : TaskStore) (key : String × String) : Mirrors (deleteTask s key) key := by
  simp [Mirrors, deleteTask]

/-- **One call** keeps the mirror of its task exactly when it meets the condition. -/
theorem mirrors_applyTaskCall {s : TaskStore} {c : TaskCall} (h : Mirrors s c.key) :
    Mirrors (applyTaskCall s c) c.key ↔ KeepsMirror s c := by
  cases c with
  | create mandatePath taskData drawn now => exact mirrors_createTask h now
  | update key updates now => exact mirrors_updateTask h updates now
  | delete key => exact iff_of_true (mirrors_deleteTask s key) trivial

/-! ### Sequences of calls -/

/-- **The collection mirrors the tasks at every point** of a sequence of calls exactly when every call meets the
condition; the tasks called have job ids of their own. -/
theorem mirrors_always_iff (keys : Set (String × String)) (hjob : Set.InjOn jobId keys) (s : TaskStore)
    (calls : List TaskCall) (hkeys : ∀ c ∈ calls, c.key ∈ keys) :
    (∀ pre, pre <+: calls → ∀ key ∈ keys, Mirrors (run applyTaskCall s pre) key) ↔
      (∀ key ∈ keys, Mirrors s key) ∧ Guarded applyTaskCall KeepsMirror s calls := by
  refine forall_prefix_iff_guarded (fun s => ∀ key ∈ keys, Mirrors s key) s calls fun s c hc h => ?_
  have hmine : c.key ∈ keys := hkeys c hc
  rw [← mirrors_applyTaskCall (h c.key hmine)]
  constructor
  · exact fun hall => hall c.key hmine
  · intro hown key hkey
    by_cases heq : key = c.key
    · exact heq ▸ hown
    · have hother := applyTaskCall_other s heq fun hj => heq (hjob hkey hmine hj)
      rw [Mirrors, hother.1, hother.2]
      exact h key hkey

/-- A planned task. -/
def dailyTask : Document :=
  [("task_id", .text "t"), ("execution_plan", .text "SCHEDULED"), ("enabled", .scalar (.bool true)),
    ("schedule", .map [("cron_expression", .text "0 8 * * *"), ("timezone", .text "Europe/Zurich"),
      ("next_execution_utc", .text "2026-01-02T07:00:00+00:00"),
      ("next_execution_local_time", .text "2026-01-02T08:00:00+01:00")])]

/-- Its creation. -/
def createDaily : TaskCall := .create "clients/u/mandates/m" dailyTask "task_0" "2026-01-01"

/-- An update of one of its fields. -/
def updateDaily (path : FieldPath) (v : Value) : TaskCall :=
  .update ("clients/u/mandates/m", "t") (Dict.ofList [(path, v)]) "2026-01-01"

/-- The task is switched off, gets a later time, is switched on again and is deleted. -/
def dailyCalls : List TaskCall :=
  [createDaily, updateDaily ["enabled"] (.scalar (.bool false)),
    updateDaily ["schedule", "next_execution_utc"] (.text "2026-01-03T07:00:00+00:00"),
    updateDaily ["enabled"] (.scalar (.bool true)), .delete ("clients/u/mandates/m", "t")]

theorem mirrors_always_daily :
    (∀ c ∈ dailyCalls, c.key = ("clients/u/mandates/m", "t")) ∧
      ∀ pre, pre <+: dailyCalls → ∀ key ∈ ({("clients/u/mandates/m", "t")} : Set _),
        Mirrors (run applyTaskCall TaskStore.empty pre) key := by
  have hkey : ∀ c ∈ dailyCalls, c.key = ("clients/u/mandates/m", "t") := by
    simp [dailyCalls, createDaily, updateDaily, TaskCall.key, taskIdOf, dailyTask, Document.get?, Dict.getList,
      Value.text, Scalar.truthy, Scalar.toStr]
  refine ⟨hkey, (mirrors_always_iff _ (Set.injOn_singleton _ _) TaskStore.empty dailyCalls hkey).mpr ⟨?_, ?_⟩⟩
  · intro key _
    rfl
  · exact ⟨(rfl : true = true), (Or.inr rfl : true = false ∨ true = true), (Or.inr rfl : true = false ∨ true = true),
      (rfl : true = true), trivial, trivial⟩

/-- A planned task is changed to one on demand. -/
theorem mirror_broken : ¬∀ keys : Set (String × String), Set.InjOn jobId keys → ∀ calls : List TaskCall,
    (∀ c ∈ calls, c.key ∈ keys) → ∀ pre, pre <+: calls → ∀ key ∈ keys,
      Mirrors (run applyTaskCall TaskStore.empty pre) key := by
  intro h
  have hmirror := h {("clients/u/mandates/m", "t")} (Set.injOn_singleton _ _)
    [createDaily, updateDaily ["execution_plan"] (.text "ON_DEMAND")] ?_ _ (List.prefix_refl _) _ rfl
  · have hshown : some (Value.text "2026-01-02T07:00:00+00:00") = none := hmirror
    cases hshown
  · intro c hc
    simp only [List.mem_cons, List.not_mem_nil, or_false] at hc
    rcases hc with rfl | rfl <;> rfl

end Pinnokio.Scheduler
