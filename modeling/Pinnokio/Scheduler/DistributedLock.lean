import Pinnokio.Lib.Dict
import Pinnokio.Lib.Interleaving

/-!
# The distributed lock of the scheduler

A lock is a Redis key with the id of the instance that owns it and a time to live.  `acquire` is one command, `SET NX
EX`; `release` and `extend` read the owner with one command and delete or prolong the key with a second one.  Any
number of calls run side by side, one command at a time, and a key may expire at any moment.

* `step_cases` — everything a command can do;
* `only_owner_iff` — **no call is ever about to delete or prolong the lock of another instance** exactly when no
  instance takes a lock while a call of another instance is between its two commands on it.
-/

namespace Pinnokio.Scheduler.DistributedLock

open Pinnokio.Interleaving

/-- The value of a lock's key. -/
structure Held where
  instanceId : String
  ttl : ℕ
  deriving DecidableEq

/-- The keys of the locks. -/
abbrev Redis := Dict String Held

/-- `f"{KEY_PREFIX}:{task_id}"`. -/
def keyOf (taskId : String) : String := "lock:cron:" ++ taskId

/-- `DEFAULT_TTL`. -/
def defaultTtl : ℕ := 300

/-- `ttl or self.DEFAULT_TTL`. -/
def ttlSeconds : Option ℕ → ℕ
  | some (n + 1) => n + 1
  | _ => defaultTtl

/-- The task and the instance of a call, and which of its two commands raise. -/
structure Args where
  taskId : String
  instanceId : String
  firstRaises : Bool := false
  secondRaises : Bool := false
  deriving DecidableEq

/-- What a call does to a lock it owns. -/
inductive Action where
  | release
  | extend (ttl : Option ℕ)
  deriving DecidableEq

/-- The methods of the lock; the time to live of a key may run out. -/
inductive Call where
  | acquire (args : Args) (ttl : Option ℕ)
  | own (action : Action) (args : Args)
  | isLocked (taskId : String)
  | expiry (key : String)
  deriving DecidableEq

/-- Local state of a call. -/
inductive Pc where
  | start (call : Call)
  /-- The lock is taken, and its owner is read for the log. -/
  | readHolder
  /-- The owner was the instance of the call. -/
  | act (action : Action) (args : Args)
  | returned (result : Bool)
  deriving DecidableEq

/-- `current_holder == instance_id`. -/
def ownedBy (r : Redis) (args : Args) : Bool :=
  match r.get? (keyOf args.taskId) with
  | none => false
  | some held => held.instanceId = args.instanceId

/-- `DELETE`, or `EXPIRE`, which does nothing to a key that is not there. -/
def Action.apply (action : Action) (r : Redis) (taskId : String) : Redis :=
  match action with
  | .release => r.erase (keyOf taskId)
  | .extend ttl => r.modify (keyOf taskId) fun held => { held with ttl := ttlSeconds ttl }

/-- The next Redis command of a call. -/
def next (r : Redis) : Pc → Option (Redis × Pc)
  | .start (.acquire args ttl) =>
      if args.firstRaises then some (r, .returned false)
      else
        match r.get? (keyOf args.taskId) with
        | none => some (r.set (keyOf args.taskId) ⟨args.instanceId, ttlSeconds ttl⟩, .returned true)
        | some _ => some (r, .readHolder)
  | .readHolder => some (r, .returned false)
  | .start (.own action args) =>
      if args.firstRaises || !ownedBy r args then some (r, .returned false) else some (r, .act action args)
  | .act action args =>
      if args.secondRaises then some (r, .returned false)
      else some (action.apply r args.taskId, .returned true)
  | .start (.isLocked taskId) => some (r, .returned (r.get? (keyOf taskId)).isSome)
  | .start (.expiry key) => some (r.erase key, .returned true)
  | .returned _ => none

/-- The calls at their start. -/
def start (r : Redis) (calls : List Call) : Pool Redis Pc := ⟨r, calls.map Pc.start⟩

/-- The command that the call is about to execute does not delete or prolong the lock of another instance. -/
def SparesOthers (r : Redis) : Pc → Prop
  | .act _ args => args.secondRaises = true ∨
      ∀ held, r.get? (keyOf args.taskId) = some held → held.instanceId = args.instanceId
  | _ => True

/-- Whichever call is next. -/
def OnlyOwner (p : Pool Redis Pc) : Prop := ∀ l ∈ p.threads, SparesOthers p.shared l

/-- The call is between its two commands on the lock of a task, which it found to be owned by another instance than
`instanceId`. -/
def Pc.interferes (taskId instanceId : String) : Pc → Bool
  | .act _ args => !args.secondRaises && decide (keyOf args.taskId = keyOf taskId) &&
      decide (args.instanceId ≠ instanceId)
  | _ => false

/-- A lock is taken while no call of another instance is between its two commands on it. -/
def takenAlone (p : Pool Redis Pc) (i : ℕ) : Prop :=
  match p.threads[i]? with
  | some (.start (.acquire args _)) =>
      args.firstRaises = true ∨ (p.shared.get? (keyOf args.taskId)).isSome = true ∨
        ∀ l ∈ p.threads, l.interferes args.taskId args.instanceId = false
  | _ => True

section Steps

variable {p q : Pool Redis Pc} {i : ℕ}

/-- The locks of a store are owned as before, or free. -/
def Frees (r r' : Redis) : Prop :=
  ∀ key held', r'.get? key = some held' → ∃ held, r.get? key = some held ∧ held'.instanceId = held.instanceId

theorem Frees.refl (r : Redis) : Frees r r := fun _ held h => ⟨held, h, rfl⟩

theorem frees_erase (r : Redis) (key : String) : Frees r (r.erase key) := by
  intro k held h
  rw [Dict.get?_erase] at h
  split at h
  · cases h
  · exact ⟨held, h, rfl⟩

theorem frees_apply (action : Action) (r : Redis) (taskId : String) : Frees r (action.apply r taskId) := by
  cases action with
  | release => exact frees_erase r _
  | extend ttl =>
      intro k held h
      rw [Action.apply, Dict.get?_modify] at h
      split at h
      · obtain ⟨held₀, h₀, rfl⟩ := Option.map_eq_some_iff.mp h
        exact ⟨held₀, h₀, rfl⟩
      · exact ⟨held, h, rfl⟩

/-- A call spares the others after the locks were left alone or freed. -/
theorem SparesOthers.of_frees {r r' : Redis} {l : Pc} (h : SparesOthers r l) (hfrees : Frees r r') :
    SparesOthers r' l := by
  cases l with
  | act action args =>
      refine h.imp_right fun hown held' hget => ?_
      obtain ⟨held, hheld, hid⟩ := hfrees _ _ hget
      exact hid.trans (hown held hheld)
  | _ => trivial

/-- **Everything a command can do**: take a free lock, or leave the locks alone or free them; and a call that goes on
to its second command has found its own id. -/
theorem step_cases (h : p.stepAt next i = some q) :
    (∃ args ttl, p.threads[i]? = some (.start (.acquire args ttl)) ∧ args.firstRaises = false ∧
      p.shared.get? (keyOf args.taskId) = none ∧
      q = ⟨p.shared.set (keyOf args.taskId) ⟨args.instanceId, ttlSeconds ttl⟩,
        p.threads.set i (.returned true)⟩) ∨
    (takenAlone p i ∧ ∃ r' l', q = ⟨r', p.threads.set i l'⟩ ∧ Frees p.shared r' ∧ SparesOthers r' l') := by
  obtain ⟨l, r', l', hl, hn, rfl⟩ := stepAt_eq_some h
  cases l with
  | start call =>
      cases call with
      | acquire args ttl =>
          simp only [next] at hn
          split at hn
          · next hraises =>
            cases hn
            refine Or.inr ⟨?_, _, _, rfl, .refl _, trivial⟩
            simp only [takenAlone, hl]
            exact Or.inl hraises
          · next hraises =>
            split at hn
            · next hfree =>
              cases hn
              exact Or.inl ⟨args, ttl, hl, Bool.eq_false_iff.mpr hraises, hfree, rfl⟩
            · next held htaken =>
              cases hn
              refine Or.inr ⟨?_, _, _, rfl, .refl _, trivial⟩
              simp only [takenAlone, hl, htaken]
              exact Or.inr (Or.inl rfl)
      | own action args =>
          simp only [next] at hn
          split at hn
          · cases hn
            exact Or.inr ⟨by simp only [takenAlone, hl], _, _, rfl, .refl _, trivial⟩
          · next hown =>
            cases hn
            refine Or.inr ⟨by simp only [takenAlone, hl], _, _, rfl, .refl _, Or.inr fun held hget => ?_⟩
            simp only [ownedBy, hget, Bool.or_eq_true, Bool.not_eq_true', not_or, Bool.not_eq_false] at hown
            exact of_decide_eq_true hown.2
      | isLocked taskId =>
          cases hn
          exact Or.inr ⟨by simp only [takenAlone, hl], _, _, rfl, .refl _, trivial⟩
      | expiry key =>
          cases hn
          exact Or.inr ⟨by simp only [takenAlone, hl], _, _, rfl, frees_erase _ _, trivial⟩
  | readHolder =>
      cases hn
      exact Or.inr ⟨by simp only [takenAlone, hl], _, _, rfl, .refl _, trivial⟩
  | act action args =>
      simp only [next] at hn
      split at hn
      · cases hn
        exact Or.inr ⟨by simp only [takenAlone, hl], _, _, rfl, .refl _, trivial⟩
      · cases hn
        exact Or.inr ⟨by simp only [takenAlone, hl], _, _, rfl, frees_apply _ _ _, trivial⟩
  | returned result => cases hn

/-- A taken lock is one that a call will not spare exactly when the call interferes. -/
theorem sparesOthers_set_iff {r : Redis} {taskId : String} {held : Held} {l : Pc} (h : SparesOthers r l) :
    SparesOthers (r.set (keyOf taskId) held) l ↔ l.interferes taskId held.instanceId = false := by
  cases l with
  | act action args =>
      simp only [SparesOthers, Pc.interferes, Dict.get?_set] at h ⊢
      cases hraises : args.secondRaises with
      | true => simp
      | false =>
          rw [hraises] at h
          have hown := h.resolve_left Bool.false_ne_true
          by_cases hkey : keyOf args.taskId = keyOf taskId
          · simp only [hkey, if_true, Bool.false_eq_true, false_or, Bool.not_false, decide_true, Bool.true_and,
              decide_eq_false_iff_not, not_not, Option.some.injEq, forall_eq']
            exact eq_comm
          · simpa [hkey] using hown
  | _ => simp [SparesOthers, Pc.interferes]

/-- **One command** keeps the locks safe exactly when it takes no lock from under another call. -/
theorem onlyOwner_step (hp : OnlyOwner p) (h : p.stepAt next i = some q) : OnlyOwner q ↔ takenAlone p i := by
  rcases step_cases h with ⟨args, ttl, hl, hraises, hfree, rfl⟩ | ⟨htaken, r', l', rfl, hfrees, hl'⟩
  · have hguard : takenAlone p i ↔ ∀ l ∈ p.threads, l.interferes args.taskId args.instanceId = false := by
      simp only [takenAlone, hl, hraises, hfree]
      simp
    rw [hguard]
    constructor
    · intro hq l hmem
      obtain ⟨j, hj⟩ := List.getElem?_of_mem hmem
      by_cases hij : j = i
      · rw [hij, hl] at hj
        cases hj
        rfl
      · have hstays : (p.threads.set i (.returned true))[j]? = some l := by
          rw [getElem?_set_of_some hl, if_neg hij, hj]
        exact (sparesOthers_set_iff (hp l hmem)).mp (hq l (List.mem_of_getElem? hstays))
    · intro hnone l hmem
      rcases mem_set_cases hmem with rfl | ⟨j, -, hj⟩
      · trivial
      · have hj := List.mem_of_getElem? hj
        exact (sparesOthers_set_iff (hp l hj)).mpr (hnone l hj)
  · refine iff_of_true ?_ htaken
    intro l hmem
    rcases mem_set_cases hmem with rfl | ⟨j, -, hj⟩
    · exact hl'
    · exact (hp l (List.mem_of_getElem? hj)).of_frees hfrees

theorem onlyOwner_start (r : Redis) (calls : List Call) : OnlyOwner (start r calls) := by
  intro l hl
  obtain ⟨call, -, rfl⟩ := List.mem_map.mp hl
  trivial

/-- A call that has returned, or is not there, takes no lock. -/
theorem takenAlone_of_stepAt_none (h : p.stepAt next i = none) : takenAlone p i := by
  unfold takenAlone
  split
  · next args ttl hl =>
    exfalso
    simp only [Pool.stepAt, hl, next] at h
    split at h
    · cases h
    · split at h <;> cases h
  · trivial

end Steps

/-- **Locks are released and extended by their owner only**: in every state a run comes to, whichever call is next, its
command spares the locks of the other instances, exactly when every lock is taken while no call of another instance is
between its two commands on it. -/
theorem only_owner_iff (r : Redis) (calls : List Call) (sched : List ℕ) :
    (∀ pre p, pre <+: sched → exec next (start r calls) pre = some p → OnlyOwner p) ↔
      Guarded next takenAlone (start r calls) sched := by
  have hiff := forall_prefix_iff_guarded OnlyOwner (fun p i hnone => takenAlone_of_stepAt_none hnone)
    (fun p i q => onlyOwner_step) sched (start r calls)
  exact hiff.trans (and_iff_right (onlyOwner_start r calls))

/-- An instance releases a lock that expires meanwhile and is taken by another instance. -/
def lateRelease : List Call :=
  [.acquire { taskId := "t", instanceId := "cron_a" } none, .own .release { taskId := "t", instanceId := "cron_a" },
    .expiry "lock:cron:t", .acquire { taskId := "t", instanceId := "cron_b" } none]

/-- **The lock of another instance is deleted**: the next command of the release deletes it. -/
theorem other_lock_released :
    ¬∀ pre p, pre <+: [0, 1, 2, 3] → exec next (start ∅ lateRelease) pre = some p → OnlyOwner p := by
  intro h
  have hspares := h _ ⟨(∅ : Redis).set "lock:cron:t" ⟨"cron_b", 300⟩,
    [.returned true, .act .release { taskId := "t", instanceId := "cron_a" }, .returned true, .returned true]⟩
    (List.prefix_refl _) rfl (.act .release { taskId := "t", instanceId := "cron_a" }) (by simp)
  have hid : "cron_b" = "cron_a" := (hspares.resolve_left Bool.false_ne_true) ⟨"cron_b", 300⟩ rfl
  exact absurd hid (by decide)

end Pinnokio.Scheduler.DistributedLock
