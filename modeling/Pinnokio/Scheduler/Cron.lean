import Mathlib.Order.Defs.LinearOrder
import Pinnokio.Scheduler.Tasks

/-!
# The cron instances

Every instance asks the collection for the tasks that are due and works through the answer.  For each task it takes a
lock in Redis, hands the task to the gateway, moves the task to its next execution, or removes it if it is to be run
once, and gives the lock back.  The answer is read before the lock is taken.

* `cronStep` — one query, command or write of an instance;
* `Prompt` — the steps by which a due execution is handed over and passed: at the lock the collection still shows what
  the instance has read, and the move to the next execution goes through;
* `enqueued_once` — in a run of such steps, in any order and of any number of instances, every execution of a task is
  handed over at most once, and a task that is to be run once only once.
-/

namespace Pinnokio.Scheduler

open Pinnokio.Runs

/-! ### Times -/

/-- What the cron uses of the libraries for times: the parser of ISO texts (`none` when it raises, or the comparison
with an aware time does), the next time of a cron expression in a time zone, and its two texts.  The next time is
later, and its text is read as that time. -/
structure Clock (Time : Type) [LinearOrder Time] where
  isoparse : String → Option Time
  getNext : Value → Value → Time → Option Time
  isoLocal : Value → Time → String
  isoUtc : Time → String
  getNext_later : ∀ cron timezone now next, getNext cron timezone now = some next → now < next
  isoparse_next : ∀ cron timezone now next,
    getNext cron timezone now = some next → isoparse (isoUtc next) = some next

/-! ### The instances -/

section Places

variable {Time : Type}

/-- A task of the answer, and the execution for which it is due. -/
structure ReadyTask where
  data : Document
  occurrence : Value

/-- The text of a name; names are scalars. -/
def nameOf : Value → Option String
  | .scalar v => some v.toStr
  | _ => none

/-- The fields that `_execute_task` reads first, as the key of the task; `none` when one is missing. -/
def taskKey (data : Document) : Option (String × String) := do
  let taskId ← data.get? "task_id"
  let _ ← data.get? "user_id"
  let _ ← data.get? "company_id"
  let mandatePath ← data.get? "mandate_path"
  let _ ← data.get? "execution_plan"
  return (← nameOf mandatePath, ← nameOf taskId)

/-- `execution_plan == plan`. -/
def hasPlan (data : Document) (plan : String) : Bool := (getOrNone data "execution_plan").isOneOf [plan]

/-- `f"{KEY_PREFIX}:{task_id}"`. -/
def lockKey (taskId : String) : String := "lock:cron:" ++ taskId

/-- Where an instance is: between two rounds, before the lock of the first of the ready tasks, after it, after the
call of the gateway, or before the release. -/
inductive Phase (Time : Type) where
  | idle
  | ready (now : Time) (tasks : List ReadyTask)
  | locked (now : Time) (t : ReadyTask) (key : String × String) (rest : List ReadyTask)
  | handedOver (now : Time) (t : ReadyTask) (key : String × String) (rest : List ReadyTask)
  | releasing (now : Time) (taskId : String) (rest : List ReadyTask)

/-- A call of `enqueue_scheduled_task`: the task, the execution it was due for, and whether it is to be run once. -/
structure Enqueued where
  key : String × String
  occurrence : Value
  oneTime : Bool

/-- The collections, the locks with their holders, the instances by their ids and the calls of the gateway. -/
structure CronState (Time : Type) where
  store : TaskStore
  locks : Dict String String
  phase : String → Phase Time
  enqueued : List Enqueued

/-- All instances are between two rounds. -/
def CronState.start (Time : Type) (store : TaskStore) : CronState Time := ⟨store, ∅, fun _ => .idle, []⟩

/-- The instance goes on. -/
def CronState.move (s : CronState Time) (instanceId : String) (p : Phase Time) : CronState Time :=
  { s with phase := fun i => if i = instanceId then p else s.phase i }

/-- A step of an instance: the query of a round, the command for the lock, an exception before the gateway is called,
that call, the update of the task, and the release. -/
inductive CronStep (Time : Type) where
  | query (instanceId : String) (now : Time)
  | lock (instanceId : String)
  | prepareRaises (instanceId : String)
  | enqueue (instanceId : String) (raises : Bool)
  | update (instanceId : String) (raises : Bool)
  | release (instanceId : String)

/-- The task that an instance is executing. -/
def Phase.executing : Phase Time → Option (String × String)
  | .locked _ _ key _ => some key
  | .handedOver _ _ key _ => some key
  | _ => none

/-- The next execution in the scheduler document of a task. -/
def showsNext (s : TaskStore) (key : String × String) : Option Value :=
  (s.scheduledTasks.get? (jobId key)).map SchedulerDoc.nextExecutionUtc

/-- The task that an instance has handed over and not updated yet, and whether it is to be run once. -/
def Phase.handedOver? : Phase Time → Option ((String × String) × Bool)
  | .handedOver _ t key _ => some (key, hasPlan t.data "ONE_TIME")
  | _ => none

theorem Phase.executing_of_handedOver? {p : Phase Time} {x : (String × String) × Bool} (h : p.handedOver? = some x) :
    p.executing = some x.1 := by
  cases p with
  | handedOver now t key rest =>
      cases h
      rfl
  | idle | ready _ _ | locked _ _ _ _ | releasing _ _ _ => cases h

theorem CronState.move_self (s : CronState Time) (i : String) (p : Phase Time) : (s.move i p).phase i = p := by
  simp [CronState.move]

theorem CronState.move_other (s : CronState Time) {i j : String} (h : j ≠ i) (p : Phase Time) :
    (s.move i p).phase j = s.phase j := by
  simp [CronState.move, h]

/-- A property of all instances after one has moved. -/
theorem CronState.forall_move {s : CronState Time} {i : String} {p : Phase Time} {P : String → Phase Time → Prop}
    (hself : P i p) (hother : ∀ j, j ≠ i → P j (s.phase j)) (j : String) : P j ((s.move i p).phase j) := by
  by_cases h : j = i
  · subst h
    rw [CronState.move_self]
    exact hself
  · rw [CronState.move_other s h]
    exact hother j h

/-- The executing instances after one has moved. -/
theorem CronState.executing_move {s : CronState Time} {i j : String} {p : Phase Time} {key : String × String}
    (h : ((s.move i p).phase j).executing = some key) :
    (j = i ∧ p.executing = some key) ∨ (j ≠ i ∧ (s.phase j).executing = some key) := by
  by_cases hj : j = i
  · rw [hj, CronState.move_self] at h
    exact Or.inl ⟨hj, h⟩
  · rw [CronState.move_other s hj] at h
    exact Or.inr ⟨hj, h⟩

/-- What the others have handed over they still have after the move of one that has not. -/
theorem CronState.handedOver?_move {s : CronState Time} {i j : String} {p : Phase Time}
    {x : (String × String) × Bool} (hi : (s.phase i).handedOver? = none) (hj : (s.phase j).handedOver? = some x) :
    ((s.move i p).phase j).handedOver? = some x := by
  have hji : j ≠ i := by
    intro heq
    rw [heq, hi] at hj
    cases hj
  rw [CronState.move_other s hji]
  exact hj

end Places

section Instances

variable {Time : Type} [LinearOrder Time] (clock : Clock Time)

/-- The time of a value; one that is not a text raises. -/
def Clock.timeOf : Value → Option Time
  | .scalar (.str s) => clock.isoparse s
  | _ => none

/-- `calculate_task_next_execution`. -/
def calculateTaskNextExecution (cronExpr timezone : Value) (fromTime : Time) : String × String :=
  match clock.getNext cronExpr timezone fromTime with
  | none => ("", "")
  | some next => (clock.isoLocal timezone next, clock.isoUtc next)

/-- The task that a scheduler document names, if it is due. -/
def readyTask (s : TaskStore) (now : Time) (doc : SchedulerDoc) : Option ReadyTask :=
  if doc.enabled.isBool true && doc.nextExecutionUtc.truthy then
    match clock.timeOf doc.nextExecutionUtc with
    | none => none
    | some next =>
        if next ≤ now then
          match nameOf doc.taskId with
          | none => none
          | some taskId =>
              if doc.mandatePath ≠ "" ∧ doc.taskId.truthy then
                match s.tasks.get? (doc.mandatePath, taskId) with
                | none => none
                | some t => if t = [] then none else some ⟨t, doc.nextExecutionUtc⟩
              else none
        else none
  else none

/-- `get_tasks_ready_for_execution_utc`. -/
def getTasksReady (s : TaskStore) (now : Time) : List ReadyTask :=
  s.scheduledTasks.entries.filterMap fun e => readyTask clock s now e.2

/-! ### The update of a task -/

/-- `task_data.get("execution_count", 0) + 1`; `none` when that raises. -/
def nextCount (data : Document) : Option Int :=
  match data.get? "execution_count" with
  | none => some 1
  | some (.scalar (.int n)) => some (n + 1)
  | some (.scalar (.bool b)) => some (b.toNat + 1)
  | _ => none

/-- The next execution of a task, its local and its UTC text, if `_update_scheduled_task` comes to one. -/
def nextExecution (data : Document) (now : Time) : Option (String × String) :=
  match mapField data "schedule" with
  | none => none
  | some schedule =>
      let cronExpr := getOrNone schedule "cron_expression"
      let timezone := getOrNone schedule "timezone"
      if cronExpr.truthy && timezone.truthy then
        let next := calculateTaskNextExecution clock cronExpr timezone now
        if next.1 = "" ∨ next.2 = "" then none else some next
      else none

/-- `scheduler_ref.update`, which raises when there is no document. -/
def setNextExecution (s : TaskStore) (key : String × String) (next : String × String) : TaskStore :=
  match s.scheduledTasks.get? (jobId key) with
  | none => s
  | some doc =>
      let doc := { doc with nextExecutionLocalTime := .text next.1, nextExecutionUtc := .text next.2 }
      { s with scheduledTasks := s.scheduledTasks.set (jobId key) doc }

/-- `_update_scheduled_task`. -/
def updateScheduledTask (s : TaskStore) (key : String × String) (data : Document) (now : Time) : TaskStore :=
  match nextExecution clock data now, nextCount data with
  | some next, some count =>
      let updates : Updates := Dict.ofList
        [(["schedule", "next_execution_local_time"], .text next.1),
          (["schedule", "next_execution_utc"], .text next.2), (["execution_count"], .scalar (.int count))]
      setNextExecution (updateTask s key updates (clock.isoUtc now)).1 key next
  | _, _ => s

/-- `_disable_one_time_task`. -/
def disableOneTimeTask (s : TaskStore) (key : String × String) (now : Time) : TaskStore :=
  let updates : Updates := Dict.ofList
    [(["enabled"], .scalar (.bool false)), (["status"], .text "completed"),
      (["completed_at"], .text (clock.isoUtc now))]
  let s := (updateTask s key updates (clock.isoUtc now)).1
  { s with scheduledTasks := s.scheduledTasks.erase (jobId key) }

/-- Step 5 of `_execute_task`. -/
def passExecution (s : TaskStore) (key : String × String) (data : Document) (now : Time) : TaskStore :=
  if hasPlan data "SCHEDULED" then updateScheduledTask clock s key data now
  else if hasPlan data "ONE_TIME" then disableOneTimeTask clock s key now
  else s

/-! ### The steps -/

/-- The phase before the next of the ready tasks. -/
def nextTask (now : Time) : List ReadyTask → Phase Time
  | [] => .idle
  | tasks => .ready now tasks

/-- `task_data.get("task_id", "unknown")`. -/
def releasedId (data : Document) : String := ((data.get? "task_id").bind nameOf).getD "unknown"

/-- One step; a step that the instance is not at does nothing. -/
def cronStep (s : CronState Time) : CronStep Time → CronState Time
  | .query i now =>
      match s.phase i with
      | .idle => s.move i (nextTask now (getTasksReady clock s.store now))
      | _ => s
  | .lock i =>
      match s.phase i with
      | .ready now (t :: rest) =>
          match taskKey t.data with
          | none => s.move i (.releasing now (releasedId t.data) rest)
          | some key =>
              if lockKey key.2 ∈ s.locks.keys then s.move i (.releasing now key.2 rest)
              else CronState.move { s with locks := s.locks.set (lockKey key.2) i } i (.locked now t key rest)
      | _ => s
  | .prepareRaises i =>
      match s.phase i with
      | .locked now _ key rest => s.move i (.releasing now key.2 rest)
      | _ => s
  | .enqueue i raises =>
      match s.phase i with
      | .locked now t key rest =>
          CronState.move { s with enqueued := s.enqueued ++ [⟨key, t.occurrence, hasPlan t.data "ONE_TIME"⟩] } i
            (if raises then .releasing now key.2 rest else .handedOver now t key rest)
      | _ => s
  | .update i raises =>
      match s.phase i with
      | .handedOver now t key rest =>
          let store := if raises then s.store else passExecution clock s.store key t.data now
          CronState.move { s with store := store } i (.releasing now key.2 rest)
      | _ => s
  | .release i =>
      match s.phase i with
      | .releasing now taskId rest =>
          let locks := if s.locks.get? (lockKey taskId) = some i then s.locks.erase (lockKey taskId) else s.locks
          CronState.move { s with locks := locks } i (nextTask now rest)
      | _ => s

/-! ### Prompt steps -/

/-- The update of a task writes a next execution, or removes the task. -/
def passes (data : Document) (now : Time) : Bool :=
  if hasPlan data "SCHEDULED" then (nextExecution clock data now).isSome && (nextCount data).isSome
  else hasPlan data "ONE_TIME"

/-- A lock is taken while the scheduler document still shows what the instance has read, and no instance is executing
another task with that document; the gateway is called for a task whose update goes through; neither the call nor the
update raises. -/
def Prompt (s : CronState Time) : CronStep Time → Prop
  | .lock i =>
      match s.phase i with
      | .ready _ (t :: _) =>
          match taskKey t.data with
          | none => True
          | some key =>
              lockKey key.2 ∈ s.locks.keys ∨
                (showsNext s.store key = some t.occurrence ∧
                  ∀ j key', (s.phase j).executing = some key' → jobId key' = jobId key → key' = key)
      | _ => True
  | .enqueue i raises =>
      match s.phase i with
      | .locked now t _ _ => raises = false ∧ passes clock t.data now = true
      | _ => True
  | .update i raises =>
      match s.phase i with
      | .handedOver _ _ _ _ => raises = false
      | _ => True
  | _ => True

/-! ### What the update of a task leaves -/

/-- The time of the first value is before that of the second. -/
def Clock.Earlier (a b : Value) : Prop :=
  ∃ x y, clock.timeOf a = some x ∧ clock.timeOf b = some y ∧ x < y

/-- The execution was due at that time. -/
def Clock.Due (now : Time) (t : ReadyTask) : Prop := ∃ x, clock.timeOf t.occurrence = some x ∧ x ≤ now

variable {clock}

theorem Clock.Earlier.trans {a b c : Value} (h : clock.Earlier a b) (h' : clock.Earlier b c) : clock.Earlier a c := by
  obtain ⟨x, y, hx, hy, hlt⟩ := h
  obtain ⟨y', z, hy', hz, hlt'⟩ := h'
  rw [hy] at hy'
  cases hy'
  exact ⟨x, z, hx, hz, hlt.trans hlt'⟩

theorem Clock.Earlier.irrefl {a : Value} (h : clock.Earlier a a) : False := by
  obtain ⟨x, y, hx, hy, hlt⟩ := h
  rw [hx] at hy
  cases hy
  exact lt_irrefl x hlt

theorem getTasksReady_due {s : TaskStore} {now : Time} {t : ReadyTask} (h : t ∈ getTasksReady clock s now) :
    clock.Due now t := by
  obtain ⟨e, -, he⟩ := List.mem_filterMap.mp h
  unfold readyTask at he
  split at he
  · cases hx : clock.timeOf e.2.nextExecutionUtc with
    | none =>
        rw [hx] at he
        cases he
    | some x =>
        rw [hx] at he
        dsimp only at he
        split at he
        · next hle =>
          split at he
          · cases he
          · split at he
            · split at he
              · cases he
              · split at he
                · cases he
                · cases he
                  exact ⟨x, hx, hle⟩
            · cases he
        · cases he
  · cases he

/-- The new next execution is later than the time of the round. -/
theorem nextExecution_later {data : Document} {now : Time} {next : String × String}
    (h : nextExecution clock data now = some next) : ∃ x, clock.timeOf (.text next.2) = some x ∧ now < x := by
  unfold nextExecution at h
  split at h
  · cases h
  · next schedule _ =>
    dsimp only at h
    split at h
    · split at h
      · cases h
      · next hne =>
        cases h
        unfold calculateTaskNextExecution at hne ⊢
        cases hnext : clock.getNext (getOrNone schedule "cron_expression") (getOrNone schedule "timezone") now with
        | none => simp [hnext] at hne
        | some x => exact ⟨x, clock.isoparse_next _ _ _ _ hnext, clock.getNext_later _ _ _ _ hnext⟩
    · cases h

theorem updateTask_showsNext_other (s : TaskStore) {key key' : String × String} (hne : jobId key' ≠ jobId key)
    (updates : Updates) (now : String) :
    showsNext (updateTask s key updates now).1 key' = showsNext s key' := by
  unfold showsNext
  rcases updateTask_scheduledTasks s key updates now with hsame | ⟨doc, doc', -, hset⟩
  · rw [hsame]
  · rw [hset, Dict.get?_set_ne _ _ hne]

/-- An update keeps the document. -/
theorem updateTask_showsNext_isSome (s : TaskStore) (key : String × String) (updates : Updates) (now : String) :
    (showsNext (updateTask s key updates now).1 key).isSome = (showsNext s key).isSome := by
  unfold showsNext
  rcases updateTask_scheduledTasks s key updates now with hsame | ⟨doc, doc', hdoc, hset⟩
  · rw [hsame]
  · rw [hset, Dict.get?_set_self, hdoc]
    rfl

theorem setNextExecution_showsNext_other (s : TaskStore) {key key' : String × String}
    (hne : jobId key' ≠ jobId key) (next : String × String) :
    showsNext (setNextExecution s key next) key' = showsNext s key' := by
  unfold showsNext setNextExecution
  split
  · rfl
  · dsimp only
    rw [Dict.get?_set_ne _ _ hne]

theorem setNextExecution_showsNext {s : TaskStore} {key : String × String} (h : (showsNext s key).isSome)
    (next : String × String) : showsNext (setNextExecution s key next) key = some (.text next.2) := by
  unfold showsNext setNextExecution at *
  split
  · next hdoc =>
    rw [hdoc] at h
    cases h
  · dsimp only
    rw [Dict.get?_set_self]
    rfl

/-- Another document stays as it is. -/
theorem passExecution_other (s : TaskStore) {key key' : String × String} (hne : jobId key' ≠ jobId key)
    (data : Document) (now : Time) : showsNext (passExecution clock s key data now) key' = showsNext s key' := by
  unfold passExecution
  split
  · unfold updateScheduledTask
    split
    · dsimp only
      rw [setNextExecution_showsNext_other _ hne, updateTask_showsNext_other s hne]
    · rfl
  · split
    · unfold disableOneTimeTask
      dsimp only
      rw [← updateTask_showsNext_other s hne]
      unfold showsNext
      dsimp only
      rw [Dict.get?_erase, if_neg hne]
    · rfl

theorem not_scheduled_of_oneTime {data : Document} (h : hasPlan data "ONE_TIME" = true) :
    hasPlan data "SCHEDULED" = false := by
  unfold hasPlan at *
  cases hv : getOrNone data "execution_plan" with
  | scalar v =>
      rw [hv] at h
      cases v with
      | str t =>
          have ht : t = "ONE_TIME" := by simpa [Value.isOneOf] using h
          simp [Value.isOneOf, ht]
      | none | bool _ | int _ => cases h
  | list _ | map _ =>
      rw [hv] at h
      cases h

/-- The document of the task shows a later execution, or it is gone. -/
theorem passExecution_self {s : TaskStore} {key : String × String} {t : ReadyTask} {now : Time}
    (hpass : passes clock t.data now = true) (hdue : clock.Due now t)
    (hshows : showsNext s key = some t.occurrence) :
    (∃ v, showsNext (passExecution clock s key t.data now) key = some v ∧ clock.Earlier t.occurrence v ∧
        hasPlan t.data "ONE_TIME" = false) ∨
      showsNext (passExecution clock s key t.data now) key = none := by
  unfold passes at hpass
  unfold passExecution
  split
  · next hplan =>
    rw [if_pos hplan, Bool.and_eq_true] at hpass
    obtain ⟨next, hnext⟩ := Option.isSome_iff_exists.mp hpass.1
    obtain ⟨count, hcount⟩ := Option.isSome_iff_exists.mp hpass.2
    unfold updateScheduledTask
    simp only [hnext, hcount]
    refine Or.inl ⟨.text next.2, ?_, ?_, ?_⟩
    · refine setNextExecution_showsNext ?_ next
      rw [updateTask_showsNext_isSome, hshows]
      rfl
    · obtain ⟨x, hx, hle⟩ := hdue
      obtain ⟨y, hy, hlt⟩ := nextExecution_later hnext
      exact ⟨x, y, hx, hy, lt_of_le_of_lt hle hlt⟩
    · by_contra hone
      rw [not_scheduled_of_oneTime (by simpa using hone)] at hplan
      cases hplan
  · next hplan =>
    rw [if_neg hplan] at hpass
    rw [if_pos hpass]
    refine Or.inr ?_
    simp [disableOneTimeTask, showsNext]

/-! ### The invariant -/

/-- The executions an instance has read were due at the time of its round. -/
def Phase.Due (clock : Clock Time) : Phase Time → Prop
  | .idle => True
  | .ready now tasks => ∀ t ∈ tasks, clock.Due now t
  | .locked now t _ rest => ∀ x ∈ t :: rest, clock.Due now x
  | .handedOver now t _ rest => ∀ x ∈ t :: rest, clock.Due now x
  | .releasing now _ rest => ∀ t ∈ rest, clock.Due now t

/-- What an instance knows of the task it is executing: the scheduler document shows the execution, and once the
task is handed over its update will go through. -/
def Phase.Knows (clock : Clock Time) (store : TaskStore) : Phase Time → Prop
  | .locked _ t key _ => showsNext store key = some t.occurrence
  | .handedOver now t key _ => showsNext store key = some t.occurrence ∧ passes clock t.data now = true
  | _ => True

/-- An instance that executes a task holds its lock and is alone with the scheduler document; the executions handed
over before are earlier than the one the document shows, the one that is being updated apart; a task that is to be run
once is removed or about to be removed. -/
structure Orderly (clock : Clock Time) (s : CronState Time) : Prop where
  due : ∀ i, (s.phase i).Due clock
  knows : ∀ i, (s.phase i).Knows clock s.store
  held : ∀ i key, (s.phase i).executing = some key → s.locks.get? (lockKey key.2) = some i
  alone : ∀ i j key key', (s.phase i).executing = some key → (s.phase j).executing = some key' →
    jobId key = jobId key' → i = j
  past : ∀ e ∈ s.enqueued, ∀ v, showsNext s.store e.key = some v →
    clock.Earlier e.occurrence v ∨ (e.occurrence = v ∧ ∃ i, (s.phase i).handedOver? = some (e.key, e.oneTime))
  removed : ∀ e ∈ s.enqueued, e.oneTime = true →
    showsNext s.store e.key = none ∨ ∃ i, (s.phase i).handedOver? = some (e.key, true)
  once : (s.enqueued.map fun e => (e.key, e.occurrence)).Nodup
  onceOverall : ∀ key, (s.enqueued.filter fun e => e.key = key && e.oneTime).length ≤ 1

theorem orderly_start (store : TaskStore) : Orderly clock (CronState.start Time store) where
  due := fun _ => trivial
  knows := fun _ => trivial
  held := by
    intro i key h
    cases h
  alone := by
    intro i j key key' h
    cases h
  past := by
    intro e he
    cases he
  removed := by
    intro e he
    cases he
  once := List.nodup_nil
  onceOverall := fun key => Nat.zero_le 1

/-- A step that neither writes documents nor hands a task over, after which the tasks handed over still are. -/
theorem Orderly.of_handedOver? {s s' : CronState Time} (h : Orderly clock s) (hstore : s'.store = s.store)
    (henqueued : s'.enqueued = s.enqueued)
    (hhanded : ∀ j x, (s.phase j).handedOver? = some x → (s'.phase j).handedOver? = some x)
    (due : ∀ i, (s'.phase i).Due clock) (knows : ∀ i, (s'.phase i).Knows clock s'.store)
    (held : ∀ i key, (s'.phase i).executing = some key → s'.locks.get? (lockKey key.2) = some i)
    (alone : ∀ i j key key', (s'.phase i).executing = some key → (s'.phase j).executing = some key' →
      jobId key = jobId key' → i = j) : Orderly clock s' := by
  refine ⟨due, knows, held, alone, ?_, ?_, ?_, ?_⟩
  · intro e he v hv
    rw [henqueued] at he
    rw [hstore] at hv
    rcases h.past e he v hv with hearlier | ⟨heq, j, hj⟩
    · exact Or.inl hearlier
    · exact Or.inr ⟨heq, j, hhanded j _ hj⟩
  · intro e he hone
    rw [henqueued] at he
    rw [hstore]
    rcases h.removed e he hone with hnone | ⟨j, hj⟩
    · exact Or.inl hnone
    · exact Or.inr ⟨j, hhanded j _ hj⟩
  · rw [henqueued]
    exact h.once
  · rw [henqueued]
    exact h.onceOverall

/-- An instance moves to a place where it executes nothing, without having handed a task over before. -/
theorem orderly_leave {s : CronState Time} (h : Orderly clock s) {i : String} {p : Phase Time}
    {locks : Dict String String} (hp : p.executing = none) (hdue : p.Due clock)
    (hbefore : (s.phase i).handedOver? = none)
    (hlocks : ∀ j key, j ≠ i → (s.phase j).executing = some key → locks.get? (lockKey key.2) = some j) :
    Orderly clock (CronState.move { s with locks := locks } i p) := by
  have hmoved : ∀ j key, ((CronState.move { s with locks := locks } i p).phase j).executing = some key →
      j ≠ i ∧ (s.phase j).executing = some key := by
    intro j key hj
    rcases CronState.executing_move hj with ⟨-, hself⟩ | hother
    · rw [hp] at hself
      cases hself
    · exact hother
  refine h.of_handedOver? rfl rfl ?_ ?_ ?_ ?_ ?_
  · exact fun j x hj => CronState.handedOver?_move hbefore hj
  · exact CronState.forall_move (P := fun _ q => q.Due clock) hdue fun j _ => h.due j
  · refine CronState.forall_move (P := fun _ q => q.Knows clock s.store) ?_ fun j _ => h.knows j
    cases p with
    | locked _ _ _ _ | handedOver _ _ _ _ => cases hp
    | idle | ready _ _ | releasing _ _ _ => trivial
  · intro j key hj
    obtain ⟨hji, hkey⟩ := hmoved j key hj
    exact hlocks j key hji hkey
  · intro j k key key' hj hk
    exact h.alone j k key key' (hmoved j key hj).2 (hmoved k key' hk).2

/-- The same, without a change of the locks. -/
theorem orderly_leave_locks {s : CronState Time} (h : Orderly clock s) {i : String} {p : Phase Time}
    (hp : p.executing = none) (hdue : p.Due clock) (hbefore : (s.phase i).handedOver? = none) :
    Orderly clock (s.move i p) :=
  orderly_leave h hp hdue hbefore fun j key _ hj => h.held j key hj

/-- An instance takes the lock of a task whose scheduler document shows what it has read. -/
theorem orderly_lock {s : CronState Time} (h : Orderly clock s) {i : String} {now : Time} {t : ReadyTask}
    {key : String × String} {rest : List ReadyTask} (hphase : s.phase i = .ready now (t :: rest))
    (hfree : lockKey key.2 ∉ s.locks.keys) (hshows : showsNext s.store key = some t.occurrence)
    (hapart : ∀ j key', (s.phase j).executing = some key' → jobId key' = jobId key → key' = key) :
    Orderly clock (CronState.move { s with locks := s.locks.set (lockKey key.2) i } i (.locked now t key rest)) := by
  have hothers : ∀ j key', (s.phase j).executing = some key' → lockKey key'.2 ≠ lockKey key.2 := by
    intro j key' hj heq
    exact hfree (heq ▸ Dict.mem_keys_of_get? (h.held j key' hj))
  -- another instance with this document would execute this task and hold its lock
  have hsole : ∀ k key', (s.phase k).executing = some key' → jobId key' ≠ jobId key := by
    intro k key' hk hjob
    exact hothers k key' hk (by rw [hapart k key' hk hjob])
  refine h.of_handedOver? rfl rfl ?_ ?_ ?_ ?_ ?_
  · exact fun j x hj => CronState.handedOver?_move (by rw [hphase]; rfl) hj
  · refine CronState.forall_move (P := fun _ q => q.Due clock) ?_ fun j _ => h.due j
    have hdue := h.due i
    rw [hphase] at hdue
    exact hdue
  · exact CronState.forall_move (P := fun _ q => q.Knows clock s.store) hshows fun j _ => h.knows j
  · intro j key' hj
    show (s.locks.set (lockKey key.2) i).get? (lockKey key'.2) = some j
    rcases CronState.executing_move hj with ⟨rfl, hself⟩ | ⟨-, hkey⟩
    · cases hself
      exact Dict.get?_set_self ..
    · rw [Dict.get?_set_ne _ _ (hothers j key' hkey)]
      exact h.held j key' hkey
  · intro j k key₁ key₂ hj hk hjob
    rcases CronState.executing_move hj with ⟨rfl, hj₁⟩ | ⟨-, hj₁⟩
    · rcases CronState.executing_move hk with ⟨rfl, -⟩ | ⟨-, hk₂⟩
      · rfl
      · cases hj₁
        exact absurd hjob.symm (hsole k key₂ hk₂)
    · rcases CronState.executing_move hk with ⟨rfl, hk₂⟩ | ⟨-, hk₂⟩
      · cases hk₂
        exact absurd hjob (hsole j key₁ hj₁)
      · exact h.alone j k key₁ key₂ hj₁ hk₂ hjob

/-- The tasks handed over before a lock was taken: none is due to be handed over again. -/
theorem enqueued_before {s : CronState Time} (h : Orderly clock s) {i : String} {now : Time} {t : ReadyTask}
    {key : String × String} {rest : List ReadyTask} (hphase : s.phase i = .locked now t key rest)
    {e : Enqueued} (he : e ∈ s.enqueued) (hkey : e.key = key) :
    clock.Earlier e.occurrence t.occurrence ∧ e.oneTime = false := by
  have hshows : showsNext s.store e.key = some t.occurrence := by
    have hknows := h.knows i
    rw [hphase] at hknows
    rw [hkey]
    exact hknows
  -- no instance is between the call for this task and its update
  have hnone : ∀ j oneTime, (s.phase j).handedOver? ≠ some (e.key, oneTime) := by
    intro j oneTime hj
    have hexec : (s.phase i).executing = some e.key := by
      rw [hphase, hkey]
      rfl
    have hji : j = i := h.alone j i e.key e.key (Phase.executing_of_handedOver? hj) hexec rfl
    rw [hji, hphase] at hj
    cases hj
  constructor
  · rcases h.past e he t.occurrence hshows with hearlier | ⟨-, j, hj⟩
    · exact hearlier
    · exact absurd hj (hnone j _)
  · by_contra hone
    rcases h.removed e he (by simpa using hone) with hgone | ⟨j, hj⟩
    · rw [hshows] at hgone
      cases hgone
    · exact hnone j _ hj

/-- The execution that is handed over is not one of the earlier calls. -/
theorem once_enqueue {s : CronState Time} (h : Orderly clock s) {i : String} {now : Time} {t : ReadyTask}
    {key : String × String} {rest : List ReadyTask} (hphase : s.phase i = .locked now t key rest) (oneTime : Bool) :
    ((s.enqueued ++ [Enqueued.mk key t.occurrence oneTime]).map fun e => (e.key, e.occurrence)).Nodup := by
  rw [List.map_append, List.map_singleton, ← List.concat_eq_append, List.nodup_concat]
  refine ⟨fun hmem => ?_, h.once⟩
  obtain ⟨e, he, heq⟩ := List.mem_map.mp hmem
  rw [Prod.mk.injEq] at heq
  have hearlier := (enqueued_before h hphase he heq.1).1
  rw [heq.2] at hearlier
  exact hearlier.irrefl

/-- Nor has a task that is to be run once been handed over before. -/
theorem onceOverall_enqueue {s : CronState Time} (h : Orderly clock s) {i : String} {now : Time} {t : ReadyTask}
    {key : String × String} {rest : List ReadyTask} (hphase : s.phase i = .locked now t key rest) (oneTime : Bool)
    (key' : String × String) :
    ((s.enqueued ++ [Enqueued.mk key t.occurrence oneTime]).filter fun e => e.key = key' && e.oneTime).length ≤ 1 := by
  rw [List.filter_append, List.length_append]
  by_cases heq : key = key'
  · -- none of the earlier calls for this task was for one to be run once
    have hempty : (s.enqueued.filter fun e => e.key = key' && e.oneTime) = [] := by
      rw [List.filter_eq_nil_iff]
      intro e he hcount
      simp only [Bool.and_eq_true, decide_eq_true_eq] at hcount
      rw [(enqueued_before h hphase he (hcount.1.trans heq.symm)).2] at hcount
      cases hcount.2
    rw [hempty, List.length_nil, Nat.zero_add]
    exact (List.length_filter_le _ _).trans le_rfl
  · have hother := h.onceOverall key'
    simpa [heq] using hother

/-- The gateway is called. -/
theorem orderly_enqueue {s : CronState Time} (h : Orderly clock s) {i : String} {now : Time} {t : ReadyTask}
    {key : String × String} {rest : List ReadyTask} (hphase : s.phase i = .locked now t key rest)
    (hpass : passes clock t.data now = true) :
    Orderly clock (CronState.move
      { s with enqueued := s.enqueued ++ [⟨key, t.occurrence, hasPlan t.data "ONE_TIME"⟩] } i
      (.handedOver now t key rest)) := by
  have hshows : showsNext s.store key = some t.occurrence := by
    have hknows := h.knows i
    rw [hphase] at hknows
    exact hknows
  have hbefore : (s.phase i).handedOver? = none := by
    rw [hphase]
    rfl
  -- the instance goes on executing its task
  have hsame : ∀ j, ((CronState.move
      { s with enqueued := s.enqueued ++ [⟨key, t.occurrence, hasPlan t.data "ONE_TIME"⟩] } i
      (.handedOver now t key rest)).phase j).executing = (s.phase j).executing := by
    refine CronState.forall_move (P := fun j q => q.executing = (s.phase j).executing) ?_ fun j _ => rfl
    rw [hphase]
    rfl
  refine ⟨?_, ?_, ?_, ?_, ?_, ?_, once_enqueue h hphase _, onceOverall_enqueue h hphase _⟩
  · refine CronState.forall_move (P := fun _ q => q.Due clock) ?_ fun j _ => h.due j
    have hdue := h.due i
    rw [hphase] at hdue
    exact hdue
  · exact CronState.forall_move (P := fun _ q => q.Knows clock s.store) ⟨hshows, hpass⟩ fun j _ => h.knows j
  · intro j key' hj
    rw [hsame] at hj
    exact h.held j key' hj
  · intro j k key₁ key₂ hj hk
    rw [hsame] at hj hk
    exact h.alone j k key₁ key₂ hj hk
  · intro e he v hv
    rcases List.mem_append.mp he with hold | hnew
    · rcases h.past e hold v hv with hearlier | ⟨heq, j, hj⟩
      · exact Or.inl hearlier
      · exact Or.inr ⟨heq, j, CronState.handedOver?_move hbefore hj⟩
    · cases List.mem_singleton.mp hnew
      refine Or.inr ⟨Option.some.inj (hshows.symm.trans hv), i, ?_⟩
      rw [CronState.move_self]
      rfl
  · intro e he hone
    rcases List.mem_append.mp he with hold | hnew
    · rcases h.removed e hold hone with hgone | ⟨j, hj⟩
      · exact Or.inl hgone
      · exact Or.inr ⟨j, CronState.handedOver?_move hbefore hj⟩
    · cases List.mem_singleton.mp hnew
      refine Or.inr ⟨i, ?_⟩
      rw [CronState.move_self, ← hone]
      rfl

theorem showsNext_congr {key key' : String × String} (heq : jobId key' = jobId key) (store : TaskStore) :
    showsNext store key' = showsNext store key := by
  rw [showsNext, showsNext, heq]

/-- What the document of a task that was handed over shows after its update. -/
theorem shown_update {s : CronState Time} (h : Orderly clock s) {i : String} {now : Time} {t : ReadyTask}
    {key : String × String} {rest : List ReadyTask} (hphase : s.phase i = .handedOver now t key rest) :
    showsNext s.store key = some t.occurrence ∧
      ((∃ v, showsNext (passExecution clock s.store key t.data now) key = some v ∧ clock.Earlier t.occurrence v ∧
          hasPlan t.data "ONE_TIME" = false) ∨
        showsNext (passExecution clock s.store key t.data now) key = none) := by
  have hknows := h.knows i
  have hdue := h.due i
  rw [hphase] at hknows hdue
  exact ⟨hknows.1, passExecution_self hknows.2 (hdue t (List.mem_cons_self ..)) hknows.1⟩

/-- The executions handed over before are earlier than the one that is shown after the update, those apart that other
instances are updating. -/
theorem past_update {s : CronState Time} (h : Orderly clock s) {i : String} {now : Time} {t : ReadyTask}
    {key : String × String} {rest : List ReadyTask} (hphase : s.phase i = .handedOver now t key rest) :
    ∀ e ∈ s.enqueued, ∀ v, showsNext (passExecution clock s.store key t.data now) e.key = some v →
      clock.Earlier e.occurrence v ∨
        (e.occurrence = v ∧ ∃ j, j ≠ i ∧ (s.phase j).handedOver? = some (e.key, e.oneTime)) := by
  obtain ⟨hshows, hself⟩ := shown_update h hphase
  intro e he v hv
  by_cases heq : jobId e.key = jobId key
  · -- the document shows a later execution than the one handed over
    rw [showsNext_congr heq] at hv
    rcases hself with ⟨v', hv', hlater, -⟩ | hgone
    · rw [hv'] at hv
      cases hv
      rcases h.past e he t.occurrence ((showsNext_congr heq s.store).trans hshows) with hearlier | ⟨hsame, -⟩
      · exact Or.inl (hearlier.trans hlater)
      · exact Or.inl (hsame ▸ hlater)
    · rw [hgone] at hv
      cases hv
  · rw [passExecution_other s.store heq t.data now] at hv
    rcases h.past e he v hv with hearlier | ⟨hsame, j, hj⟩
    · exact Or.inl hearlier
    · refine Or.inr ⟨hsame, j, fun hji => ?_, hj⟩
      have hexec : (s.phase i).executing = some e.key := hji ▸ Phase.executing_of_handedOver? hj
      rw [hphase] at hexec
      exact heq (congrArg jobId (Option.some.inj hexec).symm)

/-- A task to be run once is gone after its update, or another instance is about to remove it. -/
theorem removed_update {s : CronState Time} (h : Orderly clock s) {i : String} {now : Time} {t : ReadyTask}
    {key : String × String} {rest : List ReadyTask} (hphase : s.phase i = .handedOver now t key rest) :
    ∀ e ∈ s.enqueued, e.oneTime = true →
      showsNext (passExecution clock s.store key t.data now) e.key = none ∨
        ∃ j, j ≠ i ∧ (s.phase j).handedOver? = some (e.key, true) := by
  obtain ⟨hshows, hself⟩ := shown_update h hphase
  intro e he hone
  rcases h.removed e he hone with hgone | ⟨j, hj⟩
  · refine Or.inl ?_
    rw [passExecution_other s.store (fun heq => ?_) t.data now]
    · exact hgone
    · rw [showsNext_congr heq, hshows] at hgone
      cases hgone
  · by_cases hji : j = i
    · -- the task to be run once is removed now
      rw [hji, hphase, Phase.handedOver?, Option.some.injEq, Prod.mk.injEq] at hj
      rw [← hj.1]
      refine Or.inl ?_
      rcases hself with ⟨v', -, -, hplan⟩ | hgone
      · rw [hplan] at hj
        cases hj.2
      · exact hgone
    · exact Or.inr ⟨j, hji, hj⟩

/-- The task is moved to its next execution, or removed. -/
theorem orderly_update {s : CronState Time} (h : Orderly clock s) {i : String} {now : Time} {t : ReadyTask}
    {key : String × String} {rest : List ReadyTask} (hphase : s.phase i = .handedOver now t key rest) :
    Orderly clock (CronState.move { s with store := passExecution clock s.store key t.data now } i
      (.releasing now key.2 rest)) := by
  have hexec : (s.phase i).executing = some key := by
    rw [hphase]
    rfl
  have hmoved : ∀ j key', ((CronState.move { s with store := passExecution clock s.store key t.data now } i
      (.releasing now key.2 rest)).phase j).executing = some key' → j ≠ i ∧ (s.phase j).executing = some key' := by
    intro j key' hj
    rcases CronState.executing_move hj with ⟨-, hnone⟩ | hstill
    · cases hnone
    · exact hstill
  -- the other instances have other documents
  have hother : ∀ j key', j ≠ i → (s.phase j).executing = some key' →
      showsNext (passExecution clock s.store key t.data now) key' = showsNext s.store key' := by
    intro j key' hji hj
    exact passExecution_other s.store (fun heq => hji (h.alone j i key' key hj hexec heq)) t.data now
  refine ⟨?_, ?_, ?_, ?_, ?_, ?_, h.once, h.onceOverall⟩
  · refine CronState.forall_move (P := fun _ q => q.Due clock) ?_ fun j _ => h.due j
    have hdue := h.due i
    rw [hphase] at hdue
    exact fun x hx => hdue x (List.mem_cons_of_mem _ hx)
  · refine CronState.forall_move
      (P := fun _ q => q.Knows clock (passExecution clock s.store key t.data now)) trivial fun j hji => ?_
    have hknows := h.knows j
    have hsame := fun key' => hother j key' hji
    cases hp : s.phase j with
    | locked now' t' key' rest' =>
        rw [hp] at hknows hsame
        exact (hsame key' rfl).trans hknows
    | handedOver now' t' key' rest' =>
        rw [hp] at hknows hsame
        exact ⟨(hsame key' rfl).trans hknows.1, hknows.2⟩
    | idle | ready _ _ | releasing _ _ _ => trivial
  · intro j key' hj
    exact h.held j key' (hmoved j key' hj).2
  · intro j k key₁ key₂ hj hk
    exact h.alone j k key₁ key₂ (hmoved j key₁ hj).2 (hmoved k key₂ hk).2
  · intro e he v hv
    refine (past_update h hphase e he v hv).imp_right fun hrest => ?_
    obtain ⟨hsame, j, hji, hj⟩ := hrest
    refine ⟨hsame, j, ?_⟩
    rw [CronState.move_other _ hji]
    exact hj
  · intro e he hone
    refine (removed_update h hphase e he hone).imp_right fun hrest => ?_
    obtain ⟨j, hji, hj⟩ := hrest
    refine ⟨j, ?_⟩
    rw [CronState.move_other _ hji]
    exact hj

theorem nextTask_ready {now : Time} {rest : List ReadyTask} (hdue : ∀ t ∈ rest, clock.Due now t) :
    (nextTask now rest).executing = none ∧ (nextTask now rest).Due clock := by
  cases rest with
  | nil => exact ⟨rfl, trivial⟩
  | cons t rest => exact ⟨rfl, hdue⟩

theorem orderly_lockStep {s : CronState Time} (h : Orderly clock s) {i : String} (hprompt : Prompt clock s (.lock i)) :
    Orderly clock (cronStep clock s (.lock i)) := by
  unfold cronStep
  unfold Prompt at hprompt
  dsimp only at hprompt ⊢
  split
  · next now t rest hphase =>
    rw [hphase] at hprompt
    dsimp only at hprompt
    have hdue := h.due i
    rw [hphase] at hdue
    have hleft : ∀ taskId, Orderly clock (s.move i (.releasing now taskId rest)) := by
      intro taskId
      refine orderly_leave_locks h rfl (fun x hx => hdue x (List.mem_cons_of_mem _ hx)) ?_
      rw [hphase]
      rfl
    split
    · exact hleft _
    · next key hkey =>
      rw [hkey] at hprompt
      split
      · exact hleft _
      · next hfree =>
        obtain ⟨hshows, hapart⟩ := hprompt.resolve_left hfree
        exact orderly_lock h hphase hfree hshows hapart
  · exact h

theorem orderly_release {s : CronState Time} (h : Orderly clock s) (i : String) :
    Orderly clock (cronStep clock s (.release i)) := by
  unfold cronStep
  dsimp only
  split
  · next now taskId rest hphase =>
    have hdue := h.due i
    rw [hphase] at hdue
    have hnext := nextTask_ready hdue
    refine orderly_leave h hnext.1 hnext.2 (by rw [hphase]; rfl) ?_
    intro j key hji hj
    split
    · next hmine =>
      -- the lock of another instance is not this one's
      rw [Dict.get?_erase, if_neg]
      · exact h.held j key hj
      · intro heq
        rw [← heq, h.held j key hj] at hmine
        exact hji (Option.some.inj hmine)
    · exact h.held j key hj
  · exact h

/-- **One step.** -/
theorem orderly_step {s : CronState Time} (h : Orderly clock s) {c : CronStep Time} (hprompt : Prompt clock s c) :
    Orderly clock (cronStep clock s c) := by
  cases c with
  | query i now =>
      unfold cronStep
      dsimp only
      split
      · next hphase =>
        have hall : ∀ t ∈ getTasksReady clock s.store now, clock.Due now t := fun t ht => getTasksReady_due ht
        have hready := nextTask_ready hall
        refine orderly_leave_locks h hready.1 hready.2 ?_
        rw [hphase]
        rfl
      · exact h
  | lock i => exact orderly_lockStep h hprompt
  | prepareRaises i =>
      unfold cronStep
      dsimp only
      split
      · next now t key rest hphase =>
        have hdue := h.due i
        rw [hphase] at hdue
        refine orderly_leave_locks h rfl (fun x hx => hdue x (List.mem_cons_of_mem _ hx)) ?_
        rw [hphase]
        rfl
      · exact h
  | enqueue i raises =>
      unfold cronStep
      unfold Prompt at hprompt
      dsimp only at hprompt ⊢
      split
      · next now t key rest hphase =>
        rw [hphase] at hprompt
        rw [hprompt.1, if_neg (by simp)]
        exact orderly_enqueue h hphase hprompt.2
      · exact h
  | update i raises =>
      unfold cronStep
      unfold Prompt at hprompt
      dsimp only at hprompt ⊢
      split
      · next now t key rest hphase =>
        rw [hphase] at hprompt
        dsimp only at hprompt
        rw [hprompt, if_neg (by simp)]
        exact orderly_update h hphase
      · exact h
  | release i => exact orderly_release h i

/-- **Every execution is handed over at most once**, and a task that is to be run once only once, in every run of
prompt steps. -/
theorem enqueued_once (store : TaskStore) (steps : List (CronStep Time))
    (hg : Guarded (cronStep clock) (Prompt clock) (CronState.start Time store) steps) :
    ((run (cronStep clock) (CronState.start Time store) steps).enqueued.map fun e => (e.key, e.occurrence)).Nodup ∧
      ∀ key, ((run (cronStep clock) (CronState.start Time store) steps).enqueued.filter
        fun e => e.key = key && e.oneTime).length ≤ 1 := by
  have horderly : Orderly clock (run (cronStep clock) (CronState.start Time store) steps) := by
    refine run_invariant (fun _ s => Orderly clock s) (orderly_start store) steps ?_ hg
    exact fun pre c _ h hprompt => orderly_step h hprompt
  exact ⟨horderly.once, horderly.onceOverall⟩

end Instances

/-! ### Two instances and a daily task -/

/-- The clock of the two days after the creation of the task, in hours; the task is due at eight in Zurich. -/
def dailyClock : Clock ℕ where
  isoparse := fun s =>
    if s = "2026-01-02T07:00:00+00:00" then some 7
    else if s = "2026-01-03T07:00:00+00:00" then some 31 else none
  getNext := fun _ _ now => if now < 7 then some 7 else if now < 31 then some 31 else none
  isoLocal := fun _ next => if next = 7 then "2026-01-02T08:00:00+01:00" else "2026-01-03T08:00:00+01:00"
  isoUtc := fun next => if next = 7 then "2026-01-02T07:00:00+00:00" else "2026-01-03T07:00:00+00:00"
  getNext_later := by
    intro _ _ now next h
    split at h
    · cases h
      assumption
    · split at h
      · cases h
        assumption
      · cases h
  isoparse_next := by
    intro _ _ now next h
    split at h
    · cases h
      rfl
    · split at h
      · cases h
        rfl
      · cases h

/-- A store with a daily task. -/
def dailyStore : TaskStore :=
  applyTaskCall TaskStore.empty (.create "clients/u/mandates/m"
    (dailyTask ++ [("user_id", .text "u"), ("company_id", .text "c"), ("mandate_path", .text "clients/u/mandates/m")])
    "task_0" "2026-01-01")

/-- The second instance comes while the first one is executing the task. -/
def overlappingSteps : List (CronStep ℕ) :=
  [.query "cron_1" 8, .lock "cron_1", .query "cron_2" 8, .lock "cron_2", .enqueue "cron_1" false,
    .release "cron_2", .update "cron_1" false, .release "cron_1", .query "cron_2" 9]

theorem enqueued_once_overlapping :
    ((run (cronStep dailyClock) (CronState.start ℕ dailyStore) overlappingSteps).enqueued.map
        fun e => (e.key, e.occurrence)) =
        [(("clients/u/mandates/m", "t"), .text "2026-01-02T07:00:00+00:00")] ∧
      ((run (cronStep dailyClock) (CronState.start ℕ dailyStore) overlappingSteps).enqueued.map
        fun e => (e.key, e.occurrence)).Nodup := by
  refine ⟨rfl, (enqueued_once dailyStore overlappingSteps ?_).1⟩
  have hidle : ∀ j, ((cronStep dailyClock (CronState.start ℕ dailyStore) (.query "cron_1" 8)).phase j).executing =
      none := by
    intro j
    by_cases hj : j = "cron_1"
    · rw [hj]
      rfl
    · show (if j = "cron_1" then _ else Phase.idle).executing = none
      rw [if_neg hj]
      rfl
  have hlock : showsNext dailyStore ("clients/u/mandates/m", "t") = some (.text "2026-01-02T07:00:00+00:00") ∧
      ∀ j key', ((cronStep dailyClock (CronState.start ℕ dailyStore) (.query "cron_1" 8)).phase j).executing =
        some key' → jobId key' = jobId ("clients/u/mandates/m", "t") → key' = ("clients/u/mandates/m", "t") := by
    refine ⟨rfl, fun j key' hj => ?_⟩
    rw [hidle j] at hj
    cases hj
  exact ⟨trivial, (Or.inr hlock : lockKey "t" ∈ [] ∨ _), trivial,
    (Or.inl (by decide) : lockKey "t" ∈ [lockKey "t"] ∨ _), (⟨rfl, rfl⟩ : false = false ∧ true = true), trivial,
    (rfl : false = false), trivial, trivial, trivial⟩

/-- Both instances have read the task before the first one executes it. -/
theorem enqueued_twice : ¬∀ (store : TaskStore) (steps : List (CronStep ℕ)),
    ((run (cronStep dailyClock) (CronState.start ℕ store) steps).enqueued.map
      fun e => (e.key, e.occurrence)).Nodup := by
  intro h
  have htwice : ([(("clients/u/mandates/m", "t"), Value.text "2026-01-02T07:00:00+00:00"),
      (("clients/u/mandates/m", "t"), Value.text "2026-01-02T07:00:00+00:00")]).Nodup :=
    h dailyStore [.query "cron_1" 8, .query "cron_2" 8, .lock "cron_1", .enqueue "cron_1" false,
      .update "cron_1" false, .release "cron_1", .lock "cron_2", .enqueue "cron_2" false]
  simp at htwice

end Pinnokio.Scheduler
