import Pinnokio.Realtime.ItemsKept

/-!
# The counts of a business cache

Beside its lists a business cache may keep their lengths.  Each of the five writers finds the lists in its own way: in
the envelope of the cache manager or in one without a version, at the root of the data or under `documents`.

* `step_counts` — the writers of the job actions keep the counts;
* `counts_iff` — **counts equal list lengths** after a call iff it is not one that forgets them or looks for the lists
  in the wrong place, unless the lengths do not change.
-/

namespace Pinnokio.Realtime.Counts

open Pinnokio Pinnokio.ActiveJobs Pinnokio.Realtime

/-- What the data of a cache is wrapped in: nothing, `{"data": …}`, or that with a `cache_version`. -/
inductive Envelope where
  | bare
  | data
  | versioned
  deriving DecidableEq

/-- A business cache with counts.  The lists are at the root of the data or under `documents`; `beside` is a list
`items` at the root of data with `documents`, and `outer` what calls have put beside `data`. -/
structure CountedCache where
  envelope : Envelope
  nested : Bool
  lists : BusinessCache
  counts : Category → ℕ
  beside : Option (List Item)
  outer : BusinessCache

/-- The counts are the lengths of the lists. -/
def WellCounted (c : CountedCache) : Prop := ∀ l, c.counts l = (c.lists.list l).length

/-- The counts of the lists that are there. -/
def recount (lists : BusinessCache) (counts : Category → ℕ) : Category → ℕ := fun l =>
  match lists.lists l with
  | some items => items.length
  | none => counts l

/-- A call of `_apply_optimistic_list_change`. -/
structure OptimisticChange where
  itemIds : List String
  action : String
  extraData : Fields
  now : String

/-- `get_initial_status`, for the actions that are optimistic. -/
def initialStatus (domain action : String) : Option String :=
  if domain = "expenses" then
    if action = "close" then some "processed"
    else if action = "reopen" then some "to_process"
    else if action = "process" then some "in_process"
    else none
  else if domain ∈ ["routing", "invoices", "banking", "bank"] ∧ action = "process" then some "in_queue"
  else none

/-- The calls that write a business cache. -/
inductive Call where
  | optimistic (q : OptimisticChange)
  | updateItem (m : ItemMessage)
  | afterDelete (deletedIds : List String)
  | routingTodo (now : String) (moved : List MovedItem)
  | moveToList (now jobId targetStatus : String)

section Calls

variable (lower : String → String) (isDigit : Char → Bool) (domain : String)

/-- A job action unwraps data with a version only; it looks under `documents`, and counts again what it finds. -/
def jobAction (f : BusinessCache → BusinessCache) (c : CountedCache) : CountedCache :=
  if c.envelope = .data then { c with outer := f c.outer }
  else { c with lists := f c.lists, counts := recount (f c.lists) c.counts }

/-- The item that `_move_to_list_in_cache` moves. -/
def itemSeen (jobId : String) (c : CountedCache) : Option (Category × Item) :=
  (if c.envelope = .data then c.outer else c.lists).findIn
    (fun item => ((item.get "id").or (item.get "job_id")).same (.str jobId)) Category.all

/-- `apply_status_change`, as `_apply_optimistic_list_change` saves it; all counts are those of the object it was
applied to. -/
def applyOptimistic (q : OptimisticChange) (c : CountedCache) : CountedCache :=
  match initialStatus domain q.action with
  | none => c
  | some status =>
      let change := fun b => applyStatusChange lower domain b ⟨q.itemIds, status, q.action, q.extraData, q.now⟩
      -- `cache_data.get("data", cache_data.get("documents", cache_data))` misses the `documents` of the data
      if c.envelope ≠ .bare ∧ c.nested then
        { c with counts := fun l => ((change ⟨fun _ => none, c.beside⟩).list l).length }
      else { c with lists := change c.lists, counts := fun l => ((change c.lists).list l).length }

/-- `_update_business_cache_item` looks at the root of the data, and does not count. -/
def updateItem (m : ItemMessage) (c : CountedCache) : CountedCache :=
  if c.envelope = .data then { c with outer := updateBusinessCacheItem isDigit lower domain c.outer m }
  else if c.nested then { c with beside := some (mergeFlat m (c.beside.getD [])) }
  else { c with lists := updateBusinessCacheItem isDigit lower domain c.lists m }

/-- A call on the cache of a domain. -/
def apply (c : CountedCache) : Call → CountedCache
  | .optimistic q => applyOptimistic lower domain q c
  | .updateItem m => updateItem lower isDigit domain m c
  | .afterDelete deletedIds => jobAction (fun b => updateCacheAfterDelete b deletedIds) c
  | .routingTodo now moved => if moved = [] then c else jobAction (fun b => addToRoutingTodo now b moved) c
  | .moveToList now jobId targetStatus =>
      if itemSeen jobId c = none then c
      else jobAction (fun b => moveToListInCache lower domain now b jobId targetStatus) c

/-- The message finds no lists or fails, or it means one item and this is in the list of the new status. -/
def KeepsLengths (b : BusinessCache) (m : ItemMessage) : Prop :=
  (∀ l, b.lists l = none) ∨
    match messageStatus isDigit lower domain b m with
    | none => True
    | some status => ∀ l, (b.list l).countP (isMeant isDigit domain m) = if l = getTargetCategoryKey status then 1 else 0

/-- The call does not forget the counts of lists whose lengths it changes, and does not count other lists. -/
def KeepsCounts (c : CountedCache) : Call → Prop
  | .optimistic q =>
      initialStatus domain q.action = none ∨ c.envelope = .bare ∨ c.nested = false ∨ ∀ l, c.lists.list l = []
  | .updateItem m => c.envelope = .data ∨ c.nested = true ∨ KeepsLengths lower isDigit domain c.lists m
  | _ => True

end Calls

section Lists

variable {lower : String → String} {isDigit : Char → Bool} {domain : String}

/-- The writer takes no list away. -/
def KeepsLists (f : BusinessCache → BusinessCache) : Prop := ∀ b l, (f b).lists l = none → b.lists l = none

theorem lists_put_eq_none {b : BusinessCache} {l l' : Category} {items : List Item}
    (h : (b.put l items).lists l' = none) : b.lists l' = none := by
  have hput : Function.update b.lists l (some items) l' = none := h
  by_cases hl : l' = l
  · subst hl
    rw [Function.update_self] at hput
    cases hput
  · rwa [Function.update_of_ne hl] at hput

theorem keepsLists_afterDelete (deletedIds : List String) :
    KeepsLists fun b => updateCacheAfterDelete b deletedIds :=
  fun _ _ h => Option.map_eq_none_iff.mp h

theorem keepsLists_addOneToTodo (now : String) (m : MovedItem) : KeepsLists fun b => addOneToTodo now b m := by
  intro b l h
  simp only [addOneToTodo] at h
  split at h
  · exact h
  · have htake := lists_put_eq_none h
    unfold takeFromList at htake
    split at htake
    · exact htake
    · exact lists_put_eq_none htake

theorem keepsLists_routingTodo (now : String) (moved : List MovedItem) :
    KeepsLists fun b => addToRoutingTodo now b moved := by
  have hfold : ∀ moved : List MovedItem, KeepsLists fun b => moved.foldl (addOneToTodo now) b := by
    intro moved
    induction moved with
    | nil => exact fun _ _ h => h
    | cons m moved ih => exact fun b l h => keepsLists_addOneToTodo now m b l (ih _ l h)
  intro b l h
  simp only [addToRoutingTodo] at h
  split at h
  · exact h
  · exact hfold moved b l (lists_put_eq_none h)

theorem keepsLists_moveToList (now jobId targetStatus : String) :
    KeepsLists fun b => moveToListInCache lower domain now b jobId targetStatus := by
  intro b l h
  simp only [moveToListInCache] at h
  split at h
  · exact lists_put_eq_none (lists_put_eq_none h)
  · exact h

end Lists

section Counts

variable {lower : String → String} {isDigit : Char → Bool} {domain : String} {c : CountedCache}

/-- **A job action keeps the counts.** -/
theorem step_counts {f : BusinessCache → BusinessCache} (hf : KeepsLists f) (hc : WellCounted c) :
    WellCounted (jobAction f c) := by
  unfold jobAction
  split
  · exact hc
  · intro l
    show recount (f c.lists) c.counts l = ((f c.lists).list l).length
    unfold recount BusinessCache.list
    split
    · next items hl => rw [hl]; rfl
    · next hl =>
      rw [hl, hc l, BusinessCache.list, hf c.lists l hl]

/-- Nothing is found in a cache without lists. -/
theorem applyStatusChange_of_no_lists {b : BusinessCache} (h : ∀ l, b.lists l = none) (q : StatusChange) :
    applyStatusChange lower domain b q = b := by
  have hfind : ∀ (p : Item → Bool) (cs : List Category), b.findIn p cs = none := by
    intro p cs
    induction cs with
    | nil => rfl
    | cons l cs ih =>
        rw [BusinessCache.findIn, BusinessCache.list, h l]
        exact ih
  unfold applyStatusChange
  dsimp only
  split
  · rfl
  · next toList _ =>
    induction q.itemIds with
    | nil => rfl
    | cons itemId itemIds ih =>
        have hone : changeStatusOf q (normalize lower q.newStatus "to_process") toList b itemId = b := by
          rw [changeStatusOf, hfind]
        rw [List.foldl_cons, hone]
        exact ih

theorem optimistic_counts (hc : WellCounted c) (q : OptimisticChange) :
    WellCounted (applyOptimistic lower domain q c) ↔
      initialStatus domain q.action = none ∨ c.envelope = .bare ∨ c.nested = false ∨ ∀ l, c.lists.list l = [] := by
  unfold applyOptimistic
  split
  · next hnone => exact iff_of_true hc (Or.inl hnone)
  · next status hstatus =>
    dsimp only
    split
    · next hmissed =>
      rw [applyStatusChange_of_no_lists fun _ => rfl]
      have hzero : WellCounted { c with counts := fun l => ((⟨fun _ => none, c.beside⟩ : BusinessCache).list l).length } ↔
          ∀ l, c.lists.list l = [] := forall_congr' fun l => by
        show 0 = (c.lists.list l).length ↔ _
        rw [eq_comm, List.length_eq_zero_iff]
      rw [hzero]
      constructor
      · exact fun h => Or.inr (Or.inr (Or.inr h))
      · intro h
        rcases h with h | h | h | h
        · rw [hstatus] at h
          cases h
        · exact absurd h hmissed.1
        · rw [hmissed.2] at h
          cases h
        · exact h
    · next hseen =>
      refine iff_of_true (fun l => rfl) (Or.inr ?_)
      by_cases hbare : c.envelope = .bare
      · exact Or.inl hbare
      · exact Or.inr (Or.inl (Bool.eq_false_iff.mpr fun hn => hseen ⟨hbare, hn⟩))

/-- The lists of a cache after a message. -/
theorem length_update {b : BusinessCache} {m : ItemMessage} :
    (∀ l, ((updateBusinessCacheItem isDigit lower domain b m).list l).length = (b.list l).length) ↔
      KeepsLengths lower isDigit domain b m := by
  unfold updateBusinessCacheItem KeepsLengths
  split
  · next hany =>
    have hsome : ¬∀ l, b.lists l = none := by
      intro hall
      obtain ⟨l, -, hl⟩ := List.any_eq_true.mp hany
      rw [hall l] at hl
      cases hl
    rw [or_iff_right hsome]
    cases hstatus : messageStatus isDigit lower domain b m with
    | none => exact iff_of_true (fun _ => rfl) trivial
    | some status =>
      refine forall_congr' fun l => ?_
      show (((withoutMeant isDigit domain b m).put (getTargetCategoryKey status)
        (mergedItem isDigit domain b m :: (withoutMeant isDigit domain b m).list (getTargetCategoryKey status))).list
          l).length = _ ↔ _
      have hsplit : (b.list l).length = (b.list l).countP (isMeant isDigit domain m) +
          ((b.list l).filter fun item => !isMeant isDigit domain m item).length := by
        have hlen := List.length_eq_countP_add_countP (isMeant isDigit domain m) (l := b.list l)
        rw [← List.countP_eq_length_filter]
        simpa using hlen
      rw [list_put]
      by_cases hl : l = getTargetCategoryKey status
      · subst hl
        rw [Function.update_self, List.length_cons, list_withoutMeant, if_pos rfl, hsplit]
        omega
      · rw [Function.update_of_ne hl, list_withoutMeant, if_neg hl, hsplit]
        omega
  · next hnone =>
    have hall : ∀ l, b.lists l = none := by
      intro l
      have hfalse := List.any_eq_false.mp (Bool.eq_false_iff.mpr hnone) l (by cases l <;> decide)
      simpa using hfalse
    exact iff_of_true (fun l => rfl) (Or.inl hall)

/-- **Counts equal list lengths** after a call iff it forgets no count of a list whose length it changes, and counts no
other lists. -/
theorem counts_iff (lower : String → String) (isDigit : Char → Bool) (domain : String) (c : CountedCache)
    (hc : WellCounted c) (call : Call) :
    WellCounted (apply lower isDigit domain c call) ↔ KeepsCounts lower isDigit domain c call := by
  cases call with
  | optimistic q => exact optimistic_counts hc q
  | updateItem m =>
      simp only [apply, updateItem, KeepsCounts]
      split
      · next henv => exact iff_of_true hc (Or.inl henv)
      · next henv =>
        rw [or_iff_right henv]
        split
        · next hnested => exact iff_of_true hc (Or.inl hnested)
        · next hnested =>
          rw [or_iff_right hnested, ← length_update]
          refine forall_congr' fun l => ?_
          show c.counts l = _ ↔ _
          rw [hc l, eq_comm]
  | afterDelete deletedIds => exact iff_of_true (step_counts (keepsLists_afterDelete deletedIds) hc) trivial
  | routingTodo now moved =>
      refine iff_of_true ?_ trivial
      simp only [apply]
      split
      · exact hc
      · exact step_counts (keepsLists_routingTodo now moved) hc
  | moveToList now jobId targetStatus =>
      refine iff_of_true ?_ trivial
      simp only [apply]
      split
      · exact hc
      · exact step_counts (keepsLists_moveToList now jobId targetStatus) hc

end Counts

/-- One open item, counted. -/
def oneCounted : CountedCache where
  envelope := .versioned
  nested := false
  lists := oneOpenItem "1"
  counts := fun l => if l = .toProcess then 1 else 0
  beside := none
  outer := ⟨fun _ => none, none⟩

theorem wellCounted_oneCounted : WellCounted oneCounted := by
  intro l
  cases l <;> rfl

/-- The message of a job that is open. -/
def openJob (jobId : String) : ItemMessage where
  jobId := jobId
  itemData := Dict.ofList [("job_id", .str jobId), ("status", .str "to_process")]
  departmentData := ∅

/-- An item that is in its list already. -/
theorem counts_kept_in_list :
    WellCounted (apply Text.lower Char.isDigit "routing" oneCounted (.updateItem (openJob "1"))) := by
  refine (counts_iff Text.lower Char.isDigit "routing" oneCounted wellCounted_oneCounted _).mpr
    (Or.inr (Or.inr (Or.inr ?_)))
  have hstatus : messageStatus Char.isDigit Text.lower "routing" oneCounted.lists (openJob "1") =
      some "to_process" := by decide +kernel
  rw [hstatus]
  decide +kernel

/-- An item that starts is counted where it was. -/
theorem counts_forgotten : ¬∀ (lower : String → String) (isDigit : Char → Bool) (domain : String) (c : CountedCache),
    WellCounted c → ∀ call, WellCounted (apply lower isDigit domain c call) := by
  intro h
  have hcounts := h Text.lower Char.isDigit "routing" oneCounted wellCounted_oneCounted (.updateItem (runningJob "1"))
    .toProcess
  exact absurd hcounts (by decide +kernel)

end Pinnokio.Realtime.Counts
