import Mathlib.Algebra.Order.Field.Rat
import Mathlib.Tactic.Linarith
import Pinnokio.Lib.Dict
import Pinnokio.Lib.Runs

/-!
# The registry of tasks

A task is registered with the longest time that it may take; its entry expires some minutes after that.  A periodic
cleanup looks at all entries and deletes those that are older than two hours.

* `Tracks` — what the registry holds, against what was asked of it; `Tracks.step` — every step keeps it;
* `cleanup_spares_iff` — **the cleanup deletes no entry of a task within its time** exactly when it looks at no such
  task after two hours;
* `safe_limit_iff` — it never deletes one exactly if no task may take longer than two hours.
-/

namespace Pinnokio.Sessions.TaskRegistry

open Pinnokio.Runs

/-! ### Entries -/

/-- `task_info`. -/
structure TaskInfo where
  taskId : String
  taskType : String
  userId : String
  companyId : String
  createdAt : String
  status : String

/-- `isolation`. -/
structure Isolation where
  nameSpace : String
  priority : String
  maxDuration : ℤ

/-- `progress`. -/
structure Progress where
  currentStep : String
  progressPercent : ℤ
  estimatedCompletion : Option String

/-- `resources`. -/
structure Resources where
  workerId : Option String
  memoryUsage : Option ℤ
  cpuUsage : Option ℤ

/-- The record of a task. -/
structure TaskData where
  taskInfo : TaskInfo
  isolation : Isolation
  progress : Progress
  resources : Resources

/-- The hash of a task: its record, the time of its registration, and the time at which the key expires. -/
structure Entry where
  data : Option TaskData
  createdAt : Option ℚ
  expires : Option ℚ

/-- The hashes by key, and the time. -/
structure State where
  now : ℚ
  tasks : Dict String Entry

/-- `registry:task:{task_id}`. -/
def taskKey (taskId : String) : String := "registry:task:" ++ taskId

namespace State

/-- What the commands of Redis find under a key. -/
def hgetall (s : State) (key : String) : Option Entry := (s.tasks.get? key).filter fun e => e.expires.all (s.now ≤ ·)

/-- Time passes. -/
def pass (s : State) (seconds : ℚ) : State := { s with now := s.now + seconds }

end State

/-! ### Calls -/

/-- The arguments of `register_task`. -/
structure TaskArgs where
  taskId : String
  taskType : String
  userId : String
  companyId : String
  priority : String := "normal"
  maxDuration : ℤ := 3600

/-- The arguments of `update_task_progress`. -/
structure ProgressArgs where
  taskId : String
  status : String
  progressPercent : Option ℤ := none
  currentStep : Option String := none
  workerId : Option String := none

/-- The record of a new task. -/
def newTask (a : TaskArgs) (now : String) : TaskData where
  taskInfo := ⟨a.taskId, a.taskType, a.userId, a.companyId, now, "queued"⟩
  isolation := ⟨a.userId ++ "_" ++ a.companyId, a.priority, a.maxDuration⟩
  progress := ⟨"queued", 0, none⟩
  resources := ⟨none, none, none⟩

/-- `register_task`, with the record that it returns; a time to live that is not positive deletes the key. -/
def registerTask (s : State) (a : TaskArgs) (now : String) : State × TaskData :=
  let ttl := a.maxDuration + 300
  let tasks :=
    if 0 < ttl then s.tasks.set (taskKey a.taskId) ⟨some (newTask a now), some s.now, some (s.now + ttl)⟩
    else s.tasks.erase (taskKey a.taskId)
  ({ s with tasks }, newTask a now)

/-- A text that is not empty. -/
def given (text : Option String) : Option String := text.filter (· ≠ "")

/-- The changes that `update_task_progress` makes to the record. -/
def TaskData.progressed (data : TaskData) (a : ProgressArgs) : TaskData :=
  { data with
    taskInfo := { data.taskInfo with status := a.status }
    progress :=
      { data.progress with
        progressPercent := a.progressPercent.getD data.progress.progressPercent
        currentStep := (given a.currentStep).getD data.progress.currentStep }
    resources := { data.resources with workerId := (given a.workerId).or data.resources.workerId } }

/-- `update_task_progress`, with its result; `between` passes between the read and the write. -/
def updateTaskProgress (s : State) (a : ProgressArgs) (between : ℚ) : State × Bool :=
  let key := taskKey a.taskId
  let later := s.pass between
  match (s.hgetall key).bind Entry.data with
  | none => (later, false)
  | some data =>
      let found := (later.hgetall key).getD ⟨none, none, none⟩
      ({ later with tasks := later.tasks.set key { found with data := some (data.progressed a) } }, true)

/-- `cleanup_expired_entries` for one of the keys that it scans. -/
def cleanupKey (s : State) (key : String) : State :=
  match (s.hgetall key).bind Entry.createdAt with
  | none => s
  | some createdAt => if s.now - createdAt > 7200 then { s with tasks := s.tasks.erase key } else s

/-- A span of time. -/
abbrev Seconds := { seconds : ℚ // 0 ≤ seconds }

/-- What happens to the registry.  A run of `cleanup_expired_entries` looks at one key after another; time passes and
tasks are registered meanwhile. -/
inductive Op where
  | register (a : TaskArgs) (now : String)
  | progress (a : ProgressArgs) (between : Seconds)
  | cleanup (key : String)
  | pass (seconds : Seconds)

/-- One call, one key of a cleanup, or some time. -/
def step (s : State) : Op → State
  | .register a now => (registerTask s a now).1
  | .progress a between => (updateTaskProgress s a between).1
  | .cleanup key => cleanupKey s key
  | .pass seconds => s.pass seconds

/-- Nothing is registered. -/
def start (now : ℚ) : State := ⟨now, ∅⟩

/-- `cleanup_expired_entries` as a whole, if nothing happens meanwhile. -/
def cleanupExpiredEntries (s : State) (keys : List String) : State := keys.foldl cleanupKey s

/-- Its keys are looked at one after another. -/
theorem run_cleanup (s : State) (keys : List String) :
    run step s (keys.map .cleanup) = cleanupExpiredEntries s keys :=
  List.foldl_map

/-! ### Tasks within their time -/

/-- The age of the task is at most its `max_duration`. -/
def Entry.Live (e : Entry) (now : ℚ) : Prop :=
  ∃ data createdAt, e.data = some data ∧ e.createdAt = some createdAt ∧ now - createdAt ≤ data.isolation.maxDuration

/-- A cleanup deletes no entry of a task that is within its time. -/
def Spares (s : State) : Op → Prop
  | .cleanup key => ∀ k e, s.hgetall k = some e → e.Live s.now → (cleanupKey s key).hgetall k = some e
  | _ => True

/-- What was asked of the registry: the time of the last registration of each key and its `max_duration`. -/
structure Asked where
  now : ℚ
  registered : Dict String (ℚ × ℤ)

/-- Nothing was asked. -/
def Asked.start (now : ℚ) : Asked := ⟨now, ∅⟩

/-- What is asked, whatever the registry does. -/
def ask (h : Asked) : Op → Asked
  | .register a _ => { h with registered := h.registered.set (taskKey a.taskId) (h.now, a.maxDuration) }
  | .progress _ between => { h with now := h.now + between }
  | .cleanup _ => h
  | .pass seconds => { h with now := h.now + seconds }

/-- A cleanup does not look, after two hours, at a task that may still take time. -/
def LooksInTime (h : Asked) : Op → Prop
  | .cleanup key => ∀ since maxDuration, h.registered.get? key = some (since, maxDuration) →
      ¬(h.now - since > 7200 ∧ h.now - since ≤ maxDuration)
  | _ => True

/-! ### The registry and what was asked of it -/

/-- The entry of a registration. -/
structure Entry.Of (e : Entry) (since : ℚ) (maxDuration : ℤ) : Prop where
  createdAt : e.createdAt = some since
  expires : e.expires = some (since + (maxDuration + 300 : ℤ))
  data : ∃ data, e.data = some data ∧ data.isolation.maxDuration = maxDuration

/-- Every entry with a time is that of the last registration of its key, and a registration has its entry as long as
the task is within its time. -/
structure Tracks (s : State) (h : Asked) : Prop where
  now : s.now = h.now
  entry : ∀ key e, s.tasks.get? key = some e → e.createdAt = none ∨
    ∃ since maxDuration, h.registered.get? key = some (since, maxDuration) ∧ e.Of since maxDuration
  kept : ∀ key since maxDuration, h.registered.get? key = some (since, maxDuration) →
    h.now - since ≤ maxDuration → ∃ e, s.tasks.get? key = some e ∧ e.Of since maxDuration

section

variable {s : State} {h : Asked} {key k : String} {e : Entry} {since : ℚ} {maxDuration : ℤ}

theorem hgetall_eq_some : s.hgetall key = some e ↔ s.tasks.get? key = some e ∧ ∀ t, e.expires = some t → s.now ≤ t := by
  rw [State.hgetall, Option.filter_eq_some_iff]
  cases e.expires <;> simp

/-- The entry is there until the task has had its time, and some minutes more. -/
theorem hgetall_of (hget : s.tasks.get? key = some e) (he : e.Of since maxDuration)
    (hage : s.now - since ≤ maxDuration) : s.hgetall key = some e := by
  refine hgetall_eq_some.mpr ⟨hget, fun t ht => ?_⟩
  rw [he.expires, Option.some.injEq] at ht
  rw [← ht]
  push_cast
  linarith

theorem Entry.Of.live_iff (he : e.Of since maxDuration) (now : ℚ) : e.Live now ↔ now - since ≤ maxDuration := by
  obtain ⟨data, hdata, hmax⟩ := he.data
  constructor
  · intro hlive
    obtain ⟨data', createdAt, hdata', hcreated, hage⟩ := hlive
    rw [hdata, Option.some.injEq] at hdata'
    rw [he.createdAt, Option.some.injEq] at hcreated
    rw [← hmax, hdata', hcreated]
    exact hage
  · intro hage
    exact ⟨data, since, hdata, he.createdAt, hmax ▸ hage⟩

/-- What a cleanup does to its key. -/
theorem cleanupKey_of (hfound : s.hgetall key = some e) (hcreated : e.createdAt = some since) :
    cleanupKey s key = if s.now - since > 7200 then { s with tasks := s.tasks.erase key } else s := by
  rw [cleanupKey, hfound, Option.bind_some, hcreated]

theorem cleanupKey_cases (s : State) (key : String) :
    cleanupKey s key = s ∨ cleanupKey s key = { s with tasks := s.tasks.erase key } := by
  unfold cleanupKey
  split
  · exact .inl rfl
  · split
    · exact .inr rfl
    · exact .inl rfl

@[simp] theorem now_cleanupKey : (cleanupKey s key).now = s.now := by
  rcases cleanupKey_cases s key with hsame | herased
  · rw [hsame]
  · rw [herased]

/-- A cleanup leaves the other keys as they are. -/
theorem get?_cleanupKey_ne (hk : k ≠ key) : (cleanupKey s key).tasks.get? k = s.tasks.get? k := by
  rcases cleanupKey_cases s key with hsame | herased
  · rw [hsame]
  · rw [herased, Dict.get?_erase, if_neg hk]

theorem get?_of_cleanupKey (hget : (cleanupKey s key).tasks.get? k = some e) : s.tasks.get? k = some e := by
  rcases cleanupKey_cases s key with hsame | herased
  · rwa [hsame] at hget
  · rw [herased, Dict.get?_erase] at hget
    exact (Option.ite_none_left_eq_some.mp hget).2

/-- A cleanup that is late deletes the entry. -/
theorem Tracks.looksInTime (htracks : Tracks s h) (hspares : Spares s (.cleanup key)) :
    LooksInTime h (.cleanup key) := by
  intro since maxDuration hregistered hlate
  obtain ⟨hold, hage⟩ := hlate
  obtain ⟨e, hget, he⟩ := htracks.kept key since maxDuration hregistered hage
  rw [← htracks.now] at hold hage
  have hfound : s.hgetall key = some e := hgetall_of hget he hage
  have hafter := hspares key e hfound ((he.live_iff s.now).mpr hage)
  rw [cleanupKey_of hfound he.createdAt, if_pos hold, hgetall_eq_some, Dict.get?_erase_self] at hafter
  cases hafter.1

/-- A cleanup in time leaves its key as it is, if the task is within its time. -/
theorem Tracks.cleanupKey_eq (htracks : Tracks s h) (htime : LooksInTime h (.cleanup key))
    (hfound : s.hgetall key = some e) (hlive : e.Live s.now) : cleanupKey s key = s := by
  rcases htracks.entry key e (hgetall_eq_some.mp hfound).1 with hnone | ⟨since, maxDuration, hregistered, he⟩
  · obtain ⟨data, createdAt, -, hcreated, -⟩ := hlive
    rw [hnone] at hcreated
    cases hcreated
  · have hage := (he.live_iff s.now).mp hlive
    have hyoung : ¬s.now - since > 7200 := fun hold =>
      htime since maxDuration hregistered (htracks.now ▸ ⟨hold, hage⟩)
    rw [cleanupKey_of hfound he.createdAt, if_neg hyoung]

/-- **A cleanup of a key** spares the tasks within their time exactly when it is in time for that key. -/
theorem Tracks.spares_iff (htracks : Tracks s h) (op : Op) : Spares s op ↔ LooksInTime h op := by
  cases op with
  | register => exact Iff.rfl
  | progress => exact Iff.rfl
  | pass => exact Iff.rfl
  | cleanup key =>
      refine ⟨htracks.looksInTime, fun htime k e hfound hlive => ?_⟩
      by_cases hk : k = key
      · subst hk
        rw [htracks.cleanupKey_eq htime hfound hlive]
        exact hfound
      · obtain ⟨hget, hexpires⟩ := hgetall_eq_some.mp hfound
        refine hgetall_eq_some.mpr ⟨?_, now_cleanupKey (s := s) ▸ hexpires⟩
        rw [get?_cleanupKey_ne hk]
        exact hget

theorem tracks_start (now : ℚ) : Tracks (start now) (.start now) where
  now := rfl
  entry := fun _ _ hget => nomatch hget
  kept := fun _ _ _ hregistered => nomatch hregistered

/-- Time passes. -/
theorem Tracks.pass (htracks : Tracks s h) {seconds : ℚ} (hforward : 0 ≤ seconds) :
    Tracks (s.pass seconds) { h with now := h.now + seconds } where
  now := congrArg (· + seconds) htracks.now
  entry := htracks.entry
  kept := by
    intro key since maxDuration hregistered hage
    refine htracks.kept key since maxDuration hregistered ?_
    dsimp only at hage
    linarith

/-- A task is registered; its time to live is positive unless it is over its time from the start. -/
theorem Tracks.register (htracks : Tracks s h) (a : TaskArgs) (now : String) :
    Tracks (registerTask s a now).1 (ask h (.register a now)) where
  now := htracks.now
  entry := by
    intro key e hget
    rw [registerTask] at hget
    dsimp only [ask] at hget ⊢
    rw [Dict.get?_set]
    by_cases hkey : key = taskKey a.taskId
    · rw [if_pos hkey]
      split at hget
      · rw [Dict.get?_set, if_pos hkey, Option.some.injEq] at hget
        subst hget
        exact .inr ⟨h.now, a.maxDuration, rfl, congrArg some htracks.now, htracks.now ▸ rfl, newTask a now, rfl, rfl⟩
      · rw [Dict.get?_erase, if_pos hkey] at hget
        cases hget
    · rw [if_neg hkey]
      refine htracks.entry key e ?_
      split at hget
      · rwa [Dict.get?_set, if_neg hkey] at hget
      · rwa [Dict.get?_erase, if_neg hkey] at hget
  kept := by
    intro key since maxDuration hregistered hage
    rw [registerTask]
    dsimp only [ask] at hregistered hage ⊢
    rw [Dict.get?_set] at hregistered
    by_cases hkey : key = taskKey a.taskId
    · rw [if_pos hkey, Option.some.injEq, Prod.mk.injEq] at hregistered
      obtain ⟨rfl, rfl⟩ := hregistered
      have hmax : 0 ≤ a.maxDuration := by
        rw [sub_self] at hage
        exact_mod_cast hage
      rw [if_pos (by omega), Dict.get?_set, if_pos hkey]
      exact ⟨_, rfl, congrArg some htracks.now, htracks.now ▸ rfl, newTask a now, rfl, rfl⟩
    · rw [if_neg hkey] at hregistered
      obtain ⟨e, hget, he⟩ := htracks.kept key since maxDuration hregistered hage
      refine ⟨e, ?_, he⟩
      split
      · rwa [Dict.get?_set, if_neg hkey]
      · rwa [Dict.get?_erase, if_neg hkey]

/-- The record of an entry is replaced by one with the same `max_duration`. -/
theorem Entry.Of.progressed (he : e.Of since maxDuration) {data : TaskData} (hdata : e.data = some data)
    (a : ProgressArgs) : ({ e with data := some (data.progressed a) } : Entry).Of since maxDuration where
  createdAt := he.createdAt
  expires := he.expires
  data := by
    obtain ⟨data', hdata', hmax⟩ := he.data
    rw [hdata, Option.some.injEq] at hdata'
    exact ⟨data.progressed a, rfl, hdata' ▸ hmax⟩

/-- A task makes progress; an entry that has expired comes back without its time. -/
theorem Tracks.write (htracks : Tracks s h) (hget : s.tasks.get? key = some e) {data : TaskData}
    (hdata : e.data = some data) (a : ProgressArgs) :
    Tracks { s with
      tasks := s.tasks.set key
        { (s.hgetall key).getD ⟨none, none, none⟩ with data := some (data.progressed a) } } h where
  now := htracks.now
  entry := by
    intro k e' hget'
    rw [Dict.get?_set] at hget'
    split at hget'
    · next hk =>
      subst hk
      rw [Option.some.injEq] at hget'
      subst hget'
      cases hfound : s.hgetall k with
      | none => exact .inl rfl
      | some e' =>
          obtain rfl : e = e' := Option.some.inj (hget.symm.trans (hgetall_eq_some.mp hfound).1)
          rcases htracks.entry k e hget with hnone | ⟨since, maxDuration, hregistered, he⟩
          · exact .inl hnone
          · exact .inr ⟨since, maxDuration, hregistered, he.progressed hdata a⟩
    · exact htracks.entry k e' hget'
  kept := by
    intro k since maxDuration hregistered hage
    obtain ⟨e', hget', he⟩ := htracks.kept k since maxDuration hregistered hage
    dsimp only
    rw [Dict.get?_set]
    split
    · next hk =>
      subst hk
      obtain rfl : e = e' := Option.some.inj (hget.symm.trans hget')
      rw [hgetall_of hget he (htracks.now ▸ hage)]
      exact ⟨_, rfl, he.progressed hdata a⟩
    · exact ⟨e', hget', he⟩

theorem Tracks.progress (htracks : Tracks s h) (a : ProgressArgs) (between : Seconds) :
    Tracks (updateTaskProgress s a between).1 (ask h (.progress a between)) := by
  have hlater : Tracks (s.pass between) (ask h (.progress a between)) := htracks.pass between.2
  unfold updateTaskProgress
  dsimp only
  cases hfound : (s.hgetall (taskKey a.taskId)).bind Entry.data with
  | none => exact hlater
  | some data =>
      obtain ⟨e, he, hdata⟩ := Option.bind_eq_some_iff.mp hfound
      exact hlater.write (hgetall_eq_some.mp he).1 hdata a

/-- A cleanup that spares the tasks within their time. -/
theorem Tracks.cleanup (htracks : Tracks s h) (hspares : Spares s (.cleanup key)) : Tracks (cleanupKey s key) h where
  now := now_cleanupKey.trans htracks.now
  entry := fun k e hget => htracks.entry k e (get?_of_cleanupKey hget)
  kept := by
    intro k since maxDuration hregistered hage
    obtain ⟨e, hget, he⟩ := htracks.kept k since maxDuration hregistered hage
    rw [← htracks.now] at hage
    have hafter := hspares k e (hgetall_of hget he hage) ((he.live_iff s.now).mpr hage)
    exact ⟨e, (hgetall_eq_some.mp hafter).1, he⟩

/-- **Every step** that spares the tasks within their time keeps the registry as it was asked for. -/
theorem Tracks.step (htracks : Tracks s h) (op : Op) (hspares : Spares s op) :
    Tracks (TaskRegistry.step s op) (ask h op) := by
  cases op with
  | register a now => exact htracks.register a now
  | progress a between => exact htracks.progress a between
  | cleanup key => exact htracks.cleanup hspares
  | pass seconds => exact htracks.pass seconds.2

/-- **Conditions in lockstep**: from related states on, the tasks are spared as long as the cleanup is in time. -/
theorem Tracks.guarded_iff (htracks : Tracks s h) (ops : List Op) :
    Guarded TaskRegistry.step Spares s ops ↔ Guarded ask LooksInTime h ops :=
  guarded_iff_of_related Tracks (fun _ _ op ht => ht.spares_iff op) (fun _ _ op ht => ht.step op) htracks ops

end

/-- **The cleanup deletes no entry of a task within its time**, in a sequence of calls, exactly when it never looks at
a task that is older than two hours and still within its time. -/
theorem cleanup_spares_iff (now : ℚ) (ops : List Op) :
    Guarded step Spares (start now) ops ↔ Guarded ask LooksInTime (.start now) ops :=
  (tracks_start now).guarded_iff ops

/-- A task that may take a long time. -/
def longTask (maxDuration : ℤ) : TaskArgs where
  taskId := "t"
  taskType := "export"
  userId := "u"
  companyId := "c"
  maxDuration := maxDuration

/-- A task that may take almost three hours loses its entry a little after two. -/
theorem not_cleanup_spares : ¬∀ now ops, Guarded step Spares (start now) ops := by
  intro h
  have hspares := h 0 [.register (longTask 10000) "", .pass ⟨8000, by decide⟩, .cleanup (taskKey "t")]
  have htime := ((tracks_start 0).guarded_iff _).mp hspares
  refine htime.2.2.1 0 10000 rfl ⟨?_, ?_⟩
  · show (0 : ℚ) + 8000 - 0 > 7200
    norm_num
  · show (0 : ℚ) + 8000 - 0 ≤ (10000 : ℤ)
    norm_num

/-- It keeps its entry if the cleanup runs before and after that. -/
example : Guarded step Spares (start 0) [.register (longTask 10000) "", .pass ⟨7000, by decide⟩, .cleanup (taskKey "t"),
    .pass ⟨4000, by decide⟩, .cleanup (taskKey "t")] := by
  refine ((tracks_start 0).guarded_iff _).mpr ⟨trivial, trivial, ?_, trivial, ?_, trivial⟩
  · intro since maxDuration hregistered hlate
    cases hregistered
    have hold : (0 : ℚ) + 7000 - 0 > 7200 := hlate.1
    norm_num at hold
  · intro since maxDuration hregistered hlate
    cases hregistered
    have hage : (0 : ℚ) + 7000 + 4000 - 0 ≤ (10000 : ℤ) := hlate.2
    norm_num at hage

/-! ### Limits -/

/-- The tasks that were registered may take at most `limit` seconds. -/
def Limited (limit : ℤ) (h : Asked) : Prop :=
  ∀ key since maxDuration, h.registered.get? key = some (since, maxDuration) → maxDuration ≤ limit

/-- The task that is registered, if one is, may take at most `limit` seconds. -/
def Op.Limited (limit : ℤ) : Op → Prop
  | .register a _ => a.maxDuration ≤ limit
  | _ => True

theorem limited_start (limit : ℤ) (now : ℚ) : Limited limit (.start now) := by
  intro key since maxDuration hregistered
  cases hregistered

theorem looksInTime_of_limited {h : Asked} (hlimited : Limited 7200 h) (op : Op) : LooksInTime h op := by
  cases op with
  | register => trivial
  | progress => trivial
  | pass => trivial
  | cleanup key =>
      intro since maxDuration hregistered hlate
      have hmax : (maxDuration : ℚ) ≤ 7200 := by exact_mod_cast hlimited key since maxDuration hregistered
      linarith [hlate.1, hlate.2]

theorem limited_ask {limit : ℤ} {h : Asked} (hlimited : Limited limit h) {op : Op} (hop : op.Limited limit) :
    Limited limit (ask h op) := by
  cases op with
  | progress => exact hlimited
  | cleanup => exact hlimited
  | pass => exact hlimited
  | register a now =>
      intro key since maxDuration hregistered
      rw [ask, Dict.get?_set] at hregistered
      split at hregistered
      · rw [Option.some.injEq, Prod.mk.injEq] at hregistered
        rw [← hregistered.2]
        exact hop
      · exact hlimited key since maxDuration hregistered

theorem guarded_of_limited {h : Asked} (hlimited : Limited 7200 h) {ops : List Op}
    (hops : ∀ op ∈ ops, op.Limited 7200) : Guarded ask LooksInTime h ops := by
  induction ops generalizing h with
  | nil => trivial
  | cons op ops ih =>
      refine ⟨looksInTime_of_limited hlimited op, ih ?_ fun o ho => hops o (List.mem_cons_of_mem _ ho)⟩
      exact limited_ask hlimited (hops op List.mem_cons_self)

/-- **The safe limit**: whatever is called when, the cleanup spares the tasks within their time exactly if none may
take longer than two hours. -/
theorem safe_limit_iff (limit : ℤ) :
    (∀ now ops, (∀ op ∈ ops, op.Limited limit) → Guarded step Spares (start now) ops) ↔ limit ≤ 7200 := by
  constructor
  · intro h
    by_contra hlimit
    have hpositive : (0 : ℚ) ≤ limit := by
      have : 0 ≤ limit := by omega
      exact_mod_cast this
    have hspares := h 0 [.register (longTask limit) "", .pass ⟨limit, hpositive⟩, .cleanup (taskKey "t")] (by
      simp [Op.Limited, longTask])
    have htime := ((tracks_start 0).guarded_iff _).mp hspares
    refine htime.2.2.1 0 limit rfl ⟨?_, ?_⟩
    · show (0 : ℚ) + limit - 0 > 7200
      rw [zero_add, sub_zero]
      exact_mod_cast not_le.mp hlimit
    · show (0 : ℚ) + limit - 0 ≤ limit
      rw [zero_add, sub_zero]
  · intro hlimit now ops hops
    refine ((tracks_start now).guarded_iff ops).mpr (guarded_of_limited (limited_start _ now) ?_)
    intro op hop
    cases op with
    | register a now => exact (hops _ hop).trans hlimit
    | progress => trivial
    | cleanup => trivial
    | pass => trivial

end Pinnokio.Sessions.TaskRegistry
