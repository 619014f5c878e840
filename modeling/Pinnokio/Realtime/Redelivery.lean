import Pinnokio.Realtime.TaskMessages

/-!
# Messages that are delivered again

The writer of a business cache finds the item of a message by its ids, which may be any of those the item has once the
fields of the message are in it.  A second delivery is harmless as long as it finds that item.

* `update_update` — an item that is found again and keeps its tab is not changed by a second delivery;
* `length_update_update` — one that is not found again is there twice after it;
* `countP_update` — the items after a message are those it leaves and the merged one;
* `redelivery_idempotent` — **a second delivery changes nothing, and a job has at most one item**, in every run.
-/

namespace Pinnokio.Realtime.Redelivery

open Pinnokio Pinnokio.ActiveJobs Pinnokio.Realtime Pinnokio.Realtime.TaskMessages Pinnokio.Runs

/-! ### Deliveries -/

/-- A message that arrives; `now` is the time at which it is handled. -/
structure Arrival where
  message : TaskMessage
  now : String
  now_ne : now ≠ ""

/-- An item that belongs to a job. -/
def belongsTo (jobId : String) (item : Item) : Bool :=
  has item "job_id" jobId || has item "id" jobId || has item "task_id" jobId

/-- The items of a cache: those of its lists, or of the list `items` of a cache that has none of them. -/
def itemsOf (b : BusinessCache) : List Item :=
  if usesCategorizedLists b then Category.all.flatMap b.list else b.items.getD []

/-- At most one item belongs to a job. -/
def AtMostOne (b : BusinessCache) (jobId : String) : Prop := (itemsOf b).countP (belongsTo jobId) ≤ 1

/-- The cache of a domain, and the jobs whose messages it was handed. -/
structure State where
  cache : BusinessCache
  jobs : List String

section Step

variable (lower : String → String) (isDigit : Char → Bool) (company domain : String)

/-- What an arrival hands to the writer of the cache of a domain of a company. -/
def handed (d : Arrival) : Option ItemMessage :=
  if d.message.company d.now = .str company ∧ d.message.domain = domain then itemMessage lower d.now d.message
  else none

/-- `_handle_task_manager_message`, what it does to the cache. -/
def step (s : State) (d : Arrival) : State :=
  match handed lower company domain d with
  | none => s
  | some i => ⟨updateBusinessCacheItem isDigit lower domain s.cache i, i.jobId :: s.jobs⟩

/-! ### Harmless messages -/

/-- The item that a list without categories has for a job. -/
def byJobId (jobId : String) (item : Item) : Bool := has item "job_id" jobId || has item "id" jobId

/-- The item that a message is merged into. -/
def cachedItem (b : BusinessCache) (i : ItemMessage) : Option Item :=
  if usesCategorizedLists b then existingItem isDigit domain b i else (b.items.getD []).find? (byJobId i.jobId)

/-- The items that a message leaves. -/
def otherItems (b : BusinessCache) (i : ItemMessage) : List Item :=
  if usesCategorizedLists b then Category.all.flatMap (withoutMeant isDigit domain b i).list
  else (b.items.getD []).eraseP (byJobId i.jobId)

/-- The value of a field: that of the message, of the cached item if the message has none. -/
def fieldAfter (cached : Option Item) (data : Fields) (k : String) : Option Scalar :=
  (data.get? k).or (cached.bind fun item => item.get? k)

/-- The field is an id of the job. -/
def carries (cached : Option Item) (data : Fields) (k jobId : String) : Bool :=
  ((fieldAfter cached data k).getD .none).same (.str jobId)

/-- The fields by which the item of a message is found are still those of the job, or of the bank transaction. -/
def FoundAgain (b : BusinessCache) (i : ItemMessage) : Prop :=
  let cached := cachedItem isDigit domain b i
  if usesCategorizedLists b then
    (∃ k ∈ ["job_id", "id", "task_id"], carries cached i.itemData k i.jobId = true) ∨
      txIdForMatch isDigit domain i ≠ "" ∧ ∃ k ∈ ["id", "transaction_id"],
        ((fieldAfter cached i.itemData k).getD (.str "")).toStr = txIdForMatch isDigit domain i
  else ∃ k ∈ ["job_id", "id"], carries cached i.itemData k i.jobId = true

/-- A message that empties the status of an item means one that is to process anyway. -/
def StaysInTab (b : BusinessCache) (i : ItemMessage) : Prop :=
  "status" ∈ i.itemData.keys → statusText lower (i.itemData.get "status") = some "" →
    ∀ existing, existingItem isDigit domain b i = some existing →
      ∀ word, statusText lower (existing.get "status") = some word → getTargetCategoryKey word = .toProcess

/-- No item that the message leaves belongs to its job, or to a job so far whose id the message brings. -/
def JobsApart (jobs : List String) (b : BusinessCache) (i : ItemMessage) : Prop :=
  ∀ job ∈ i.jobId :: jobs, (job = i.jobId ∨
      ∃ k ∈ ["job_id", "id", "task_id"], carries (cachedItem isDigit domain b i) i.itemData k job = true) →
    ∀ x ∈ otherItems isDigit domain b i, belongsTo job x = false

/-- The message finds its item again, keeps its tab and leaves the items of the jobs apart; a status that is no text is
an error, which leaves the cache as it is. -/
def Harmless (s : State) (i : ItemMessage) : Prop :=
  if usesCategorizedLists s.cache = true ∧ messageStatus isDigit lower domain s.cache i = none then
    AtMostOne s.cache i.jobId
  else
    FoundAgain isDigit domain s.cache i ∧
      (usesCategorizedLists s.cache = true → StaysInTab lower isDigit domain s.cache i) ∧
      JobsApart isDigit domain s.jobs s.cache i

end Step

/-! ### Merging -/

section Merging

variable {cached : Option Item} {data : Fields}

/-- The fields of a message over those of the cached item. -/
def mergedOf (cached : Option Item) (data : Fields) : Item :=
  match cached with
  | none => data
  | some item => item.setAll data.entries

theorem get?_mergedOf (cached : Option Item) (data : Fields) (k : String) :
    (mergedOf cached data).get? k = fieldAfter cached data k := by
  cases cached with
  | none => exact Option.or_none.symm
  | some item => exact Dict.get?_setAll item data.nodup k

/-- Merging the same fields again. -/
theorem setAll_mergedOf (cached : Option Item) (data : Fields) :
    (mergedOf cached data).setAll data.entries = mergedOf cached data := by
  apply Dict.setAll_of_get?
  intro e he
  rw [get?_mergedOf, fieldAfter, Dict.mem_entries_iff.mp he]
  rfl

theorem has_mergedOf (k s : String) : has (mergedOf cached data) k s = carries cached data k s := by
  rw [has, carries, Fields.get, get?_mergedOf]

theorem belongsTo_mergedOf (jobId : String) :
    belongsTo jobId (mergedOf cached data) = true ↔
      ∃ k ∈ ["job_id", "id", "task_id"], carries cached data k jobId = true := by
  simp [belongsTo, has_mergedOf, or_assoc]

end Merging

section Messages

variable {lower : String → String} {isDigit : Char → Bool} {domain : String} {b : BusinessCache} {i : ItemMessage}

theorem mergedItem_eq : mergedItem isDigit domain b i = mergedOf (existingItem isDigit domain b i) i.itemData := by
  unfold mergedItem
  cases existingItem isDigit domain b i <;> rfl

/-- An item that is found again is meant again. -/
theorem isMeant_mergedOf {cached : Option Item} :
    isMeant isDigit domain i (mergedOf cached i.itemData) = true ↔
      (∃ k ∈ ["job_id", "id", "task_id"], carries cached i.itemData k i.jobId = true) ∨
        txIdForMatch isDigit domain i ≠ "" ∧ ∃ k ∈ ["id", "transaction_id"],
          ((fieldAfter cached i.itemData k).getD (.str "")).toStr = txIdForMatch isDigit domain i := by
  simp [isMeant, has_mergedOf, Fields.getD, get?_mergedOf, or_assoc]

/-! ### A second delivery to the lists -/

/-- The item at the head of one list is found if no other item is. -/
theorem findIn_put_head {p : Item → Bool} {x : Item} (hx : p x = true) {c : Category}
    (hnone : ∀ c, (b.list c).find? p = none) (cs : List Category) (hc : c ∈ cs) :
    (b.put c (x :: b.list c)).findIn p cs = some (c, x) := by
  induction cs with
  | nil => cases hc
  | cons d cs ih =>
      rw [BusinessCache.findIn, list_put]
      by_cases hd : d = c
      · subst hd
        rw [Function.update_self, List.find?_cons_of_pos hx]
      · rw [Function.update_of_ne hd, hnone d]
        exact ih ((List.mem_cons.mp hc).resolve_left (Ne.symm hd))

/-- A status that is no text is an error. -/
theorem update_of_error (hlists : usesCategorizedLists b = true)
    (hstatus : messageStatus isDigit lower domain b i = none) :
    updateBusinessCacheItem isDigit lower domain b i = b := by
  unfold usesCategorizedLists at hlists
  unfold updateBusinessCacheItem
  rw [if_pos hlists, hstatus]

/-- Without a status of its own an item is searched by that of the cached item. -/
theorem messageStatus_of_empty (hown : statusText lower (i.itemData.get "status") = some "") :
    messageStatus isDigit lower domain b i =
      match existingItem isDigit domain b i with
      | none => some ""
      | some existing => statusText lower (existing.get "status") := by
  rw [messageStatus, hown]
  cases existingItem isDigit domain b i <;> rfl

/-- A message that gets a status has one of its own that can be read, if only an empty one. -/
theorem exists_statusText {status : String} (h : messageStatus isDigit lower domain b i = some status) :
    ∃ word, statusText lower (i.itemData.get "status") = some word := by
  cases hown : statusText lower (i.itemData.get "status") with
  | none =>
      rw [messageStatus, hown] at h
      cases h
  | some word => exact ⟨word, rfl⟩

/-- The cache after a message: the item at the head of the list of its status, over the items that are left. -/
def placed (isDigit : Char → Bool) (domain : String) (b : BusinessCache) (i : ItemMessage) (c : Category) :
    BusinessCache :=
  (withoutMeant isDigit domain b i).put c
    (mergedItem isDigit domain b i :: (withoutMeant isDigit domain b i).list c)

theorem update_eq_placed (hlists : usesCategorizedLists b = true) {status : String}
    (hstatus : messageStatus isDigit lower domain b i = some status) :
    updateBusinessCacheItem isDigit lower domain b i = placed isDigit domain b i (getTargetCategoryKey status) := by
  apply update_of_cachedCategory
  rw [cachedCategory, if_pos hlists, hstatus]
  rfl

theorem usesCategorizedLists_put (b : BusinessCache) (c : Category) (items : List Item) :
    usesCategorizedLists (b.put c items) = true := by
  have hsome : ((b.put c items).lists c).isSome = true := by
    show (Function.update b.lists c (some items) c).isSome = true
    rw [Function.update_self]
    rfl
  exact List.any_eq_true.mpr ⟨c, by cases c <;> decide, hsome⟩

section Placed

variable {c : Category} (hmeant : isMeant isDigit domain i (mergedItem isDigit domain b i) = true)
include hmeant

/-- The item that is found again is the merged one. -/
theorem existingItem_placed :
    existingItem isDigit domain (placed isDigit domain b i c) i = some (mergedItem isDigit domain b i) := by
  have hnone : ∀ c, ((withoutMeant isDigit domain b i).list c).find? (isMeant isDigit domain i) = none := by
    intro c
    rw [List.find?_eq_none]
    intro x hx
    rw [list_withoutMeant, List.mem_filter] at hx
    simpa using hx.2
  rw [existingItem, placed, findIn_put_head hmeant hnone Category.all (by cases c <;> decide)]
  rfl

theorem mergedItem_placed :
    mergedItem isDigit domain (placed isDigit domain b i c) i = mergedItem isDigit domain b i := by
  rw [mergedItem_eq (b := placed isDigit domain b i c), existingItem_placed hmeant]
  show (mergedItem isDigit domain b i).setAll i.itemData.entries = mergedItem isDigit domain b i
  rw [mergedItem_eq, setAll_mergedOf]

/-- Nothing else is taken out. -/
theorem withoutMeant_placed :
    withoutMeant isDigit domain (placed isDigit domain b i c) i = withoutMeant isDigit domain b i := by
  have hlist : ∀ d, ((placed isDigit domain b i c).list d).filter (fun x => !isMeant isDigit domain i x) =
      (b.list d).filter fun x => !isMeant isDigit domain i x := by
    intro d
    rw [placed, list_put]
    by_cases hd : d = c
    · subst hd
      rw [Function.update_self, List.filter_cons_of_neg (by rw [hmeant]; decide), list_withoutMeant,
        List.filter_filter]
      simp
    · rw [Function.update_of_ne hd, list_withoutMeant, List.filter_filter]
      simp
  show BusinessCache.mk (fun d => some _) b.items = BusinessCache.mk (fun d => some _) b.items
  simp only [hlist]

theorem placed_placed : placed isDigit domain (placed isDigit domain b i c) i c = placed isDigit domain b i c := by
  show (withoutMeant isDigit domain (placed isDigit domain b i c) i).put c
    (mergedItem isDigit domain (placed isDigit domain b i c) i ::
      (withoutMeant isDigit domain (placed isDigit domain b i c) i).list c) = _
  rw [withoutMeant_placed hmeant, mergedItem_placed hmeant]
  rfl

/-- The status that is read again is in the same tab. -/
theorem messageStatus_placed {status status' : String}
    (hstatus : messageStatus isDigit lower domain b i = some status) (htab : StaysInTab lower isDigit domain b i)
    (hstatus' : messageStatus isDigit lower domain (placed isDigit domain b i c) i = some status') :
    getTargetCategoryKey status' = getTargetCategoryKey status := by
  obtain ⟨word, hown⟩ := exists_statusText hstatus
  by_cases hempty : word = ""
  · subst hempty
    rw [messageStatus_of_empty hown] at hstatus
    rw [messageStatus_of_empty hown, existingItem_placed hmeant, mergedItem_eq] at hstatus'
    replace hstatus' : statusText lower
        (Fields.get (mergedOf (existingItem isDigit domain b i) i.itemData) "status") = some status' := hstatus'
    rw [Fields.get, get?_mergedOf] at hstatus'
    cases hkey : i.itemData.get? "status" with
    | some v =>
        -- the message has emptied the status of its item
        have hv : i.itemData.get "status" = v := by rw [Fields.get, hkey]; rfl
        rw [fieldAfter, hkey, Option.some_or, Option.getD_some, ← hv, hown] at hstatus'
        cases hstatus'
        cases hexisting : existingItem isDigit domain b i with
        | none =>
            rw [hexisting] at hstatus
            cases hstatus
            rfl
        | some existing =>
            rw [hexisting] at hstatus
            exact (htab (Dict.mem_keys_of_get? hkey) hown existing hexisting status hstatus).symm
    | none =>
        rw [fieldAfter, hkey, Option.none_or] at hstatus'
        cases hexisting : existingItem isDigit domain b i with
        | none =>
            rw [hexisting] at hstatus hstatus'
            cases hstatus
            cases hstatus'
            rfl
        | some existing =>
            rw [hexisting] at hstatus hstatus'
            rw [Option.some.inj (hstatus'.symm.trans hstatus)]
  · rw [messageStatus_of_ne hown hempty] at hstatus hstatus'
    rw [Option.some.inj (hstatus'.symm.trans hstatus)]

/-- **A second delivery** of a message whose item is found again and keeps its tab changes nothing. -/
theorem update_update {status : String} (hlists : usesCategorizedLists b = true)
    (hstatus : messageStatus isDigit lower domain b i = some status) (htab : StaysInTab lower isDigit domain b i) :
    updateBusinessCacheItem isDigit lower domain (updateBusinessCacheItem isDigit lower domain b i) i =
      updateBusinessCacheItem isDigit lower domain b i := by
  rw [update_eq_placed hlists hstatus]
  have hlists' : usesCategorizedLists (placed isDigit domain b i (getTargetCategoryKey status)) = true :=
    usesCategorizedLists_put _ _ _
  cases hagain : messageStatus isDigit lower domain (placed isDigit domain b i (getTargetCategoryKey status)) i with
  | none => exact update_of_error hlists' hagain
  | some status' =>
      rw [update_eq_placed hlists' hagain, messageStatus_placed hmeant hstatus htab hagain, placed_placed hmeant]

end Placed

/-- The items after a message: those it leaves, and the merged one. -/
theorem countP_placed (p : Item → Bool) (c : Category) :
    (Category.all.flatMap (placed isDigit domain b i c).list).countP p =
      (Category.all.flatMap (withoutMeant isDigit domain b i).list).countP p +
        if p (mergedItem isDigit domain b i) then 1 else 0 := by
  rw [placed, list_put]
  generalize (withoutMeant isDigit domain b i).list = left
  cases c <;> simp [Category.all, List.countP_append, List.countP_cons] <;> omega

/-! ### A cache without lists -/

section Flat

variable {p q : Item → Bool} {f : Item → Item} {xs : List Item} {j : ℕ}

theorem find?_of_findIdx?_eq_none (h : xs.findIdx? p = none) : xs.find? p = none := by
  rw [List.find?_eq_none]
  intro x hx
  rw [List.findIdx?_eq_none_iff.mp h x hx]
  exact Bool.false_ne_true

/-- Changing the first item with a property, where it keeps the property and a second change does nothing. -/
theorem modify_findIdx (hf : ∀ x, xs.find? p = some x → p (f x) = true ∧ f (f x) = f x)
    (hj : xs.findIdx? p = some j) :
    (xs.modify j f).findIdx? p = some j ∧ (xs.modify j f).modify j f = xs.modify j f := by
  induction xs generalizing j with
  | nil => cases hj
  | cons x xs ih =>
      rw [List.findIdx?_cons] at hj
      split at hj
      · next hx =>
        cases hj
        obtain ⟨hfx, hff⟩ := hf x (List.find?_cons_of_pos hx)
        simp [List.findIdx?_cons, hfx, hff]
      · next hx =>
        obtain ⟨j, hj', rfl⟩ := Option.map_eq_some_iff.mp hj
        obtain ⟨hidx, hmodify⟩ := ih (fun y hy => hf y (by rw [List.find?_cons_of_neg hx]; exact hy)) hj'
        rw [List.modify_succ_cons, List.findIdx?_cons, if_neg hx, hidx, List.modify_succ_cons, hmodify]
        exact ⟨rfl, rfl⟩

theorem countP_modify_findIdx (hj : xs.findIdx? p = some j) :
    ∃ x, xs.find? p = some x ∧
      (xs.modify j f).countP q = (xs.eraseP p).countP q + if q (f x) then 1 else 0 := by
  induction xs generalizing j with
  | nil => cases hj
  | cons x xs ih =>
      rw [List.findIdx?_cons] at hj
      split at hj
      · next hx =>
        cases hj
        refine ⟨x, List.find?_cons_of_pos hx, ?_⟩
        rw [List.modify_zero_cons, List.countP_cons, List.eraseP_cons_of_pos hx]
      · next hx =>
        obtain ⟨j, hj', rfl⟩ := Option.map_eq_some_iff.mp hj
        obtain ⟨y, hy, hcount⟩ := ih hj'
        refine ⟨y, by rw [List.find?_cons_of_neg hx]; exact hy, ?_⟩
        rw [List.modify_succ_cons, List.countP_cons, hcount, List.eraseP_cons_of_neg hx, List.countP_cons]
        omega

end Flat

theorem mergeFlat_of_none {items : List Item} (h : items.findIdx? (byJobId i.jobId) = none) :
    mergeFlat i items = i.itemData :: items := by
  have h' : (items.findIdx? fun item => has item "job_id" i.jobId || has item "id" i.jobId) = none := h
  rw [mergeFlat, h']

theorem mergeFlat_of_some {items : List Item} {j : ℕ} (h : items.findIdx? (byJobId i.jobId) = some j) :
    mergeFlat i items = items.modify j fun item => item.setAll i.itemData.entries := by
  have h' : (items.findIdx? fun item => has item "job_id" i.jobId || has item "id" i.jobId) = some j := h
  rw [mergeFlat, h']

/-- An item of a job that is found again in a list without categories is not changed again. -/
theorem mergeFlat_mergeFlat {items : List Item}
    (hagain : byJobId i.jobId (mergedOf (items.find? (byJobId i.jobId)) i.itemData) = true) :
    mergeFlat i (mergeFlat i items) = mergeFlat i items := by
  cases hidx : items.findIdx? (byJobId i.jobId) with
  | none =>
      rw [find?_of_findIdx?_eq_none hidx] at hagain
      replace hagain : byJobId i.jobId i.itemData = true := hagain
      have hidx' : (i.itemData :: items).findIdx? (byJobId i.jobId) = some 0 := by
        rw [List.findIdx?_cons, if_pos hagain]
      have hself : i.itemData.setAll i.itemData.entries = i.itemData := setAll_mergedOf none i.itemData
      rw [mergeFlat_of_none hidx, mergeFlat_of_some hidx', List.modify_zero_cons, hself]
  | some j =>
      have hf : ∀ x, items.find? (byJobId i.jobId) = some x →
          byJobId i.jobId (Dict.setAll x i.itemData.entries) = true ∧
            Dict.setAll (Dict.setAll x i.itemData.entries) i.itemData.entries = Dict.setAll x i.itemData.entries := by
        intro x hx
        rw [hx] at hagain
        exact ⟨hagain, setAll_mergedOf (some x) i.itemData⟩
      obtain ⟨hidx', hmodify⟩ := modify_findIdx hf hidx
      rw [mergeFlat_of_some hidx, mergeFlat_of_some hidx']
      exact hmodify

theorem countP_mergeFlat (q : Item → Bool) (items : List Item) :
    (mergeFlat i items).countP q = (items.eraseP (byJobId i.jobId)).countP q +
      if q (mergedOf (items.find? (byJobId i.jobId)) i.itemData) then 1 else 0 := by
  cases hidx : items.findIdx? (byJobId i.jobId) with
  | none =>
      have hnone := find?_of_findIdx?_eq_none hidx
      rw [mergeFlat_of_none hidx, hnone, List.eraseP_of_forall_not (List.find?_eq_none.mp hnone)]
      exact List.countP_cons
  | some j =>
      obtain ⟨x, hx, hcount⟩ := countP_modify_findIdx (q := q)
        (f := fun item => item.setAll i.itemData.entries) hidx
      rw [mergeFlat_of_some hidx, hx]
      exact hcount

end Messages

/-! ### The time of a delivery -/

section Times

variable {lower : String → String} {now now' : String} {m : TaskMessage}

/-- A value that is not replaced by the time. -/
def plain : Scalar → Bool
  | .str s => !isSentinel s
  | _ => true

/-- An object none of whose fields is replaced by the time. -/
def PlainRecord (r : Record) : Prop := ∀ e ∈ r.fields.entries, plain e.2 = true

instance (r : Record) : Decidable (PlainRecord r) :=
  inferInstanceAs (Decidable (∀ e ∈ r.fields.entries, plain e.2 = true))

/-- The company of a message as it was sent. -/
def sentCompany (m : TaskMessage) : Scalar :=
  (Fields.get m.top.fields "collection_id").or (Fields.get m.top.fields "company_id")

/-- The item does not depend on the time: none of its fields is replaced by it, and its status is not either. -/
def Lasting (m : TaskMessage) : Prop :=
  match m.data with
  | .absent => PlainRecord m.top
  | .object r => PlainRecord r ∧ ("status" ∈ r.fields.keys ∨ plain (Fields.get m.top.fields "status") = true)
  | .other => True

theorem sanitize_of_plain {v : Scalar} (h : plain v = true) (now : String) : sanitize now v = v := by
  cases v with
  | str s =>
      rw [plain, Bool.not_eq_true'] at h
      rw [sanitize, sanitizeValue, h]
      rfl
  | _ => rfl

theorem sanitized_of_plain {r : Record} (h : PlainRecord r) (now : String) : r.sanitized now = r := by
  unfold Record.sanitized
  rw [Dict.mapValues_eq_self fun e he => sanitize_of_plain (h e he) now]

theorem get_sanitized (r : Record) (now k : String) :
    (r.sanitized now).fields.get k = sanitize now (r.fields.get k) := by
  rw [Record.sanitized, Fields.get, Dict.get?_mapValues, Fields.get]
  cases r.fields.get? k <;> rfl

/-- A time counts as true, as the text that it replaces does. -/
theorem truthy_sanitize (hnow : now ≠ "") (v : Scalar) : (sanitize now v).truthy = v.truthy := by
  cases v with
  | str s =>
      unfold sanitize sanitizeValue
      dsimp only
      split
      · next hs =>
        have hne : s ≠ "" := by
          intro hempty
          subst hempty
          revert hs
          decide
        simp [Scalar.truthy, hnow, hne]
      · rfl
  | _ => rfl

theorem company_eq (hnow : now ≠ "") (m : TaskMessage) : m.company now = sanitize now (sentCompany m) := by
  unfold TaskMessage.company sentCompany Scalar.or
  rw [get_sanitized, get_sanitized, truthy_sanitize hnow]
  split <;> rfl

theorem rawStatus_eq (now : String) (m : TaskMessage) :
    m.rawStatus now = statusText id (sanitize now (Fields.get m.top.fields "status")) := by
  rw [TaskMessage.rawStatus, get_sanitized]

theorem isSome_rawStatus (now : String) (m : TaskMessage) :
    (m.rawStatus now).isSome = (statusText id (Fields.get m.top.fields "status")).isSome := by
  rw [rawStatus_eq]
  cases Fields.get m.top.fields "status" <;> rfl

/-- Only the object of the item depends on the time. -/
theorem itemMessage_eq (hnow : now ≠ "") (m : TaskMessage) :
    itemMessage lower now m =
      if ((sentCompany m).truthy = false ∨ m.domain = "" ∨ m.intercepted) ∨ m.domain = "hr" then none
      else
        ((m.rawStatus now).bind (m.itemRecord lower now)).map fun r =>
          ⟨m.text "job_id", prepareItem m.domain (m.text "job_id") r, r.departmentData⟩ := by
  unfold itemMessage
  rw [company_eq hnow, truthy_sanitize hnow]
  by_cases hskip : (sentCompany m).truthy = false ∨ m.domain = "" ∨ m.intercepted
  · rw [if_pos hskip, if_pos (Or.inl hskip)]
  · rw [if_neg hskip]
    by_cases hhr : m.domain = "hr"
    · rw [if_pos (Or.inr hhr)]
      cases m.rawStatus now with
      | none => rfl
      | some rawStatus => exact if_pos hhr
    · rw [if_neg (not_or.mpr ⟨hskip, hhr⟩)]
      cases m.rawStatus now with
      | none => rfl
      | some rawStatus => exact if_neg hhr

/-- Whether there is an item does not depend on the time. -/
theorem isSome_itemMessage (lower : String → String) (hnow : now ≠ "") (hnow' : now' ≠ "") (m : TaskMessage) :
    (itemMessage lower now m).isSome = (itemMessage lower now' m).isSome := by
  have hconst : ∀ now rawStatus, (m.itemRecord lower now rawStatus).isSome =
      (m.itemRecord lower now' "").isSome := by
    intro now rawStatus
    unfold TaskMessage.itemRecord
    cases m.data with
    | absent => rfl
    | object r =>
        dsimp only
        split <;> rfl
    | other => rfl
  have hrecord : ∀ now, ((m.rawStatus now).bind (m.itemRecord lower now)).isSome =
      ((statusText id (Fields.get m.top.fields "status")).isSome && (m.itemRecord lower now' "").isSome) := by
    intro now
    rw [← isSome_rawStatus now]
    cases m.rawStatus now with
    | none => rfl
    | some rawStatus => exact hconst now rawStatus
  rw [itemMessage_eq hnow, itemMessage_eq hnow']
  split
  · rfl
  · rw [Option.isSome_map, Option.isSome_map, hrecord, hrecord]

/-- An item that does not depend on the time is the same at every time. -/
theorem itemMessage_of_lasting (hnow : now ≠ "") (hnow' : now' ≠ "") (hm : Lasting m) :
    itemMessage lower now m = itemMessage lower now' m := by
  rw [itemMessage_eq hnow, itemMessage_eq hnow']
  suffices h : (m.rawStatus now).bind (m.itemRecord lower now) = (m.rawStatus now').bind (m.itemRecord lower now') by
    rw [h]
  unfold Lasting at hm
  cases hdata : m.data with
  | absent =>
      rw [hdata] at hm
      have htop : m.top.sanitized now = m.top.sanitized now' := by
        rw [sanitized_of_plain hm, sanitized_of_plain hm]
      unfold TaskMessage.rawStatus TaskMessage.itemRecord TaskMessage.normalizedTop
      rw [htop, hdata]
  | object r =>
      rw [hdata] at hm
      obtain ⟨hr, hstatus⟩ := hm
      have hrecord : ∀ now rawStatus, m.itemRecord lower now rawStatus = some (if rawStatus = "" then r
          else { r with fields := Fields.setDefault r.fields "status" (.str (m.normalizedStatus lower rawStatus)) }) := by
        intro now rawStatus
        rw [TaskMessage.itemRecord, hdata]
        dsimp only
        rw [sanitized_of_plain hr]
        split <;> rfl
      rcases hstatus with hown | hplain
      · -- the object has a status of its own
        have hsame : ∀ now, (m.rawStatus now).bind (m.itemRecord lower now) =
            if (statusText id (Fields.get m.top.fields "status")).isSome then some r else none := by
          intro now
          rw [← isSome_rawStatus now]
          cases m.rawStatus now with
          | none => rfl
          | some rawStatus =>
              show m.itemRecord lower now rawStatus = some r
              rw [hrecord, Fields.setDefault, if_pos hown]
              split <;> rfl
        rw [hsame, hsame]
      · rw [rawStatus_eq, rawStatus_eq, sanitize_of_plain hplain, sanitize_of_plain hplain]
        simp only [hrecord]
  | other =>
      have hnone : ∀ now, m.itemRecord lower now = fun _ => none := by
        intro now
        funext rawStatus
        rw [TaskMessage.itemRecord, hdata]
      rw [hnone, hnone]
      cases m.rawStatus now <;> cases m.rawStatus now' <;> rfl

end Times

/-! ### Runs -/

section Run

variable {lower : String → String} {isDigit : Char → Bool} {company domain : String} {s : State} {i : ItemMessage}

/-- The same message hands the same item to the writer, whenever it arrives. -/
theorem handed_again {d d' : Arrival} (hmessage : d'.message = d.message)
    (hcompany : plain (sentCompany d.message) = true)
    (hlasting : ∀ i, handed lower company domain d = some i → Lasting d.message) :
    handed lower company domain d' = handed lower company domain d := by
  unfold handed at hlasting ⊢
  rw [hmessage, company_eq d'.now_ne, company_eq d.now_ne, sanitize_of_plain hcompany, sanitize_of_plain hcompany]
  rw [company_eq d.now_ne, sanitize_of_plain hcompany] at hlasting
  split
  · next haddressed =>
    rw [if_pos haddressed] at hlasting
    cases hitem : itemMessage lower d.now d.message with
    | some i => rw [← hitem, itemMessage_of_lasting d'.now_ne d.now_ne (hlasting i hitem)]
    | none =>
        have hsome := isSome_itemMessage lower d'.now_ne d.now_ne d.message
        rw [hitem] at hsome
        exact Option.not_isSome_iff_eq_none.mp (by rw [hsome]; exact Bool.false_ne_true)
  · rfl

theorem update_flat {b : BusinessCache} (hlists : usesCategorizedLists b = false) :
    updateBusinessCacheItem isDigit lower domain b i = { b with items := some (mergeFlat i (b.items.getD [])) } := by
  unfold usesCategorizedLists at hlists
  unfold updateBusinessCacheItem
  rw [if_neg (by rw [hlists]; exact Bool.false_ne_true)]

/-- **A second delivery** of a harmless message. -/
theorem update_again (h : Harmless lower isDigit domain s i) :
    updateBusinessCacheItem isDigit lower domain (updateBusinessCacheItem isDigit lower domain s.cache i) i =
      updateBusinessCacheItem isDigit lower domain s.cache i := by
  unfold Harmless at h
  split at h
  · next herror => rw [update_of_error herror.1 herror.2, update_of_error herror.1 herror.2]
  · next hstatus =>
    obtain ⟨hfound, htab, -⟩ := h
    unfold FoundAgain at hfound
    cases hlists : usesCategorizedLists s.cache with
    | true =>
        simp only [hlists, if_true, cachedItem] at hfound
        obtain ⟨status, hsome⟩ := Option.ne_none_iff_exists'.mp fun hnone => hstatus ⟨hlists, hnone⟩
        have hmeant := isMeant_mergedOf.mpr hfound
        rw [← mergedItem_eq] at hmeant
        exact update_update hmeant hlists hsome (htab hlists)
    | false =>
        simp only [hlists, Bool.false_eq_true, if_false, cachedItem] at hfound
        have hagain : byJobId i.jobId (mergedOf ((s.cache.items.getD []).find? (byJobId i.jobId)) i.itemData) =
            true := by
          simpa [byJobId, has_mergedOf] using hfound
        have hlists' : usesCategorizedLists
            { s.cache with items := some (mergeFlat i (s.cache.items.getD [])) } = false := hlists
        rw [update_flat hlists, update_flat hlists', Option.getD_some, mergeFlat_mergeFlat hagain]

/-- **The items after a message**: those it leaves, and the merged one. -/
theorem countP_update {b : BusinessCache} (h : usesCategorizedLists b = true → messageStatus isDigit lower domain b i ≠ none)
    (p : Item → Bool) :
    (itemsOf (updateBusinessCacheItem isDigit lower domain b i)).countP p =
      (otherItems isDigit domain b i).countP p +
        if p (mergedOf (cachedItem isDigit domain b i) i.itemData) then 1 else 0 := by
  unfold itemsOf otherItems cachedItem
  cases hlists : usesCategorizedLists b with
  | true =>
      obtain ⟨status, hsome⟩ := Option.ne_none_iff_exists'.mp (h hlists)
      have hlists' : usesCategorizedLists (placed isDigit domain b i (getTargetCategoryKey status)) = true :=
        usesCategorizedLists_put _ _ _
      rw [update_eq_placed hlists hsome, if_pos hlists', countP_placed, mergedItem_eq]
      rfl
  | false =>
      rw [update_flat hlists]
      have hlists' : usesCategorizedLists { b with items := some (mergeFlat i (b.items.getD [])) } = false := hlists
      rw [hlists', if_neg Bool.false_ne_true, if_neg Bool.false_ne_true, if_neg Bool.false_ne_true]
      exact countP_mergeFlat p (b.items.getD [])

/-- **A message that does not find its item again** adds another one when it is delivered again. -/
theorem length_update_update {b : BusinessCache} (hlists : usesCategorizedLists b = true) {status : String}
    (hstatus : messageStatus isDigit lower domain b i = some status)
    (hmeant : isMeant isDigit domain i (mergedItem isDigit domain b i) = false) :
    (itemsOf (updateBusinessCacheItem isDigit lower domain
        (updateBusinessCacheItem isDigit lower domain b i) i)).length =
      (itemsOf (updateBusinessCacheItem isDigit lower domain b i)).length + 1 := by
  rw [update_eq_placed hlists hstatus]
  generalize getTargetCategoryKey status = c
  have hlists' : usesCategorizedLists (placed isDigit domain b i c) = true := usesCategorizedLists_put _ _ _
  -- no item is meant now
  have hkeep : ∀ d, ∀ x ∈ (placed isDigit domain b i c).list d, isMeant isDigit domain i x = false := by
    apply forall_list_put (P := fun _ items => ∀ x ∈ items, isMeant isDigit domain i x = false)
    · intro x hx
      rcases List.mem_cons.mp hx with rfl | hx
      · exact hmeant
      · rw [list_withoutMeant, List.mem_filter] at hx
        simpa using hx.2
    · intro d x hx
      rw [list_withoutMeant, List.mem_filter] at hx
      simpa using hx.2
  have hnone : existingItem isDigit domain (placed isDigit domain b i c) i = none := by
    by_contra hexisting
    obtain ⟨x, hx⟩ := Option.ne_none_iff_exists'.mp hexisting
    obtain ⟨d, hmem, hmeant'⟩ := existingItem_eq_some hx
    rw [hkeep d x hmem] at hmeant'
    cases hmeant'
  have hsome : messageStatus isDigit lower domain (placed isDigit domain b i c) i ≠ none := by
    obtain ⟨word, hown⟩ := exists_statusText hstatus
    by_cases hempty : word = ""
    · subst hempty
      rw [messageStatus_of_empty hown, hnone]
      exact Option.some_ne_none ""
    · rw [messageStatus_of_ne hown hempty]
      exact Option.some_ne_none word
  have hcount := countP_update (fun _ => hsome) fun _ => true
  rw [List.countP_true, if_pos rfl] at hcount
  rw [hcount, otherItems, if_pos hlists', itemsOf, if_pos hlists']
  congr 3
  funext d
  rw [list_withoutMeant]
  exact List.filter_eq_self.mpr fun x hx => by rw [hkeep d x hx]; rfl

/-- The items that a message leaves were there. -/
theorem countP_otherItems_le (b : BusinessCache) (p : Item → Bool) :
    (otherItems isDigit domain b i).countP p ≤ (itemsOf b).countP p := by
  unfold otherItems itemsOf
  split
  · simp only [List.countP_flatMap]
    apply List.sum_le_sum
    intro c _
    exact List.filter_sublist.countP_le
  · exact List.eraseP_sublist.countP_le

/-- **One item for each job**, after a harmless message. -/
theorem atMostOne_update (h : Harmless lower isDigit domain s i) (hs : ∀ job ∈ s.jobs, AtMostOne s.cache job) :
    ∀ job ∈ i.jobId :: s.jobs, AtMostOne (updateBusinessCacheItem isDigit lower domain s.cache i) job := by
  unfold Harmless at h
  split at h
  · next herror =>
    rw [update_of_error herror.1 herror.2]
    exact List.forall_mem_cons.mpr ⟨h, hs⟩
  · next hstatus =>
    obtain ⟨-, -, hapart⟩ := h
    intro job hjob
    unfold AtMostOne
    rw [countP_update fun hlists hnone => hstatus ⟨hlists, hnone⟩]
    by_cases hbrings : job = i.jobId ∨ ∃ k ∈ ["job_id", "id", "task_id"],
        carries (cachedItem isDigit domain s.cache i) i.itemData k job = true
    · have hnone := hapart job hjob hbrings
      rw [List.countP_eq_zero.mpr fun x hx => by rw [hnone x hx]; exact Bool.false_ne_true]
      split <;> omega
    · obtain ⟨hother, hnot⟩ := not_or.mp hbrings
      rw [← belongsTo_mergedOf] at hnot
      rw [if_neg hnot]
      exact (countP_otherItems_le s.cache _).trans (hs job ((List.mem_cons.mp hjob).resolve_left hother))

/-- What a step requires of an arrival: a company that is no time, and a message that is harmless where it is handed to
the cache, with the same item at every time. -/
def Redeliverable (lower : String → String) (isDigit : Char → Bool) (company domain : String) (s : State)
    (d : Arrival) : Prop :=
  plain (sentCompany d.message) = true ∧
    ∀ i, handed lower company domain d = some i → Lasting d.message ∧ Harmless lower isDigit domain s i

/-- **One arrival.** -/
theorem step_redelivery {d : Arrival} (hd : Redeliverable lower isDigit company domain s d)
    (hs : ∀ job ∈ s.jobs, AtMostOne s.cache job) :
    (∀ d' : Arrival, d'.message = d.message →
        (step lower isDigit company domain (step lower isDigit company domain s d) d').cache =
          (step lower isDigit company domain s d).cache) ∧
      ∀ job ∈ (step lower isDigit company domain s d).jobs,
        AtMostOne (step lower isDigit company domain s d).cache job := by
  have hagain : ∀ d' : Arrival, d'.message = d.message →
      handed lower company domain d' = handed lower company domain d :=
    fun d' hmessage => handed_again hmessage hd.1 fun i hi => (hd.2 i hi).1
  cases hi : handed lower company domain d with
  | none =>
      have hstep : step lower isDigit company domain s d = s := by rw [step, hi]
      rw [hstep]
      refine ⟨fun d' hmessage => ?_, hs⟩
      rw [step, hagain d' hmessage, hi]
  | some i =>
      have hstep : step lower isDigit company domain s d =
          ⟨updateBusinessCacheItem isDigit lower domain s.cache i, i.jobId :: s.jobs⟩ := by rw [step, hi]
      rw [hstep]
      refine ⟨fun d' hmessage => ?_, atMostOne_update (hd.2 i hi).2 hs⟩
      rw [step, hagain d' hmessage, hi]
      exact update_again (hd.2 i hi).2

/-- **Redelivery is idempotent**, in every run whose messages are harmless where they arrive: handling a message again
leaves the cache as it is, and each job so far has at most one item. -/
theorem redelivery_idempotent (lower : String → String) (isDigit : Char → Bool) (company domain : String)
    (b : BusinessCache) (ds : List Arrival)
    (hds : Guarded (step lower isDigit company domain) (Redeliverable lower isDigit company domain) ⟨b, []⟩ ds) :
    ∀ pre, pre <+: ds →
      (∀ d, pre ++ [d] <+: ds → ∀ d' : Arrival, d'.message = d.message →
        (run (step lower isDigit company domain) ⟨b, []⟩ (pre ++ [d, d'])).cache =
          (run (step lower isDigit company domain) ⟨b, []⟩ (pre ++ [d])).cache) ∧
      ∀ job ∈ (run (step lower isDigit company domain) ⟨b, []⟩ pre).jobs,
        AtMostOne (run (step lower isDigit company domain) ⟨b, []⟩ pre).cache job := by
  have hone : ∀ pre, pre <+: ds → ∀ job ∈ (run (step lower isDigit company domain) ⟨b, []⟩ pre).jobs,
      AtMostOne (run (step lower isDigit company domain) ⟨b, []⟩ pre).cache job := by
    intro pre
    induction pre using List.reverseRecOn with
    | nil => exact fun _ job hjob => absurd hjob List.not_mem_nil
    | append_singleton pre d ih =>
        intro hpre
        rw [run_concat]
        have hbefore := ih ((List.prefix_append pre [d]).trans hpre)
        exact (step_redelivery (hds.at_prefix hpre) hbefore).2
  intro pre hpre
  refine ⟨fun d hd d' hmessage => ?_, hone pre hpre⟩
  rw [List.append_cons, run_concat, run_concat]
  exact (step_redelivery (hds.at_prefix hd) (hone pre hpre)).1 d' hmessage

end Run

/-- What is published when a job is stopped that no worker has: its `data` has no id of the job. -/
def syntheticStop (jobId : String) : TaskMessage where
  top := ⟨Dict.ofList [("type", .str "task_manager_update"), ("job_id", .str jobId), ("status", .str "stopped"),
    ("department", .str "Router"), ("collection_id", .str "c"), ("mandate_path", .str "clients/u/mandates/m"),
    ("timestamp", .str "2026-01-01T00:00:00+00:00")], ∅⟩
  data := .object ⟨Dict.ofList [("status", .str "stopped"), ("stopped_by", .str "user_pending_cancel")], ∅⟩
  texts := by
    intro k hk
    simp only [List.mem_cons, List.not_mem_nil, or_false] at hk
    rcases hk with rfl | rfl <;> rfl

/-- An arrival at a time. -/
def arrival (m : TaskMessage) : Arrival := ⟨m, "2026-01-01T00:00:00+00:00", by decide⟩

/-- The stop of a job that has an item is harmless. -/
theorem redelivery_of_stop :
    let ds := [arrival (syntheticStop "a")]
    let s : State := ⟨oneOpenItem "a", []⟩
    let stop := step Text.lower Char.isDigit "c" "routing"
    ∀ pre, pre <+: ds →
      (∀ d, pre ++ [d] <+: ds → ∀ d' : Arrival, d'.message = d.message →
        (run stop s (pre ++ [d, d'])).cache = (run stop s (pre ++ [d])).cache) ∧
      ∀ job ∈ (run stop s pre).jobs, AtMostOne (run stop s pre).cache job := by
  intro ds s stop
  refine redelivery_idempotent Text.lower Char.isDigit "c" "routing" (oneOpenItem "a") ds
    ⟨⟨by decide +kernel, fun i hi => ⟨⟨by decide +kernel, Or.inl (by decide)⟩, ?_⟩⟩, trivial⟩
  have hfound : ∀ i ∈ handed Text.lower "c" "routing" (arrival (syntheticStop "a")),
      messageStatus Char.isDigit Text.lower "routing" s.cache i = some "stopped" ∧
        statusText Text.lower (i.itemData.get "status") = some "stopped" ∧
          carries (cachedItem Char.isDigit "routing" s.cache i) i.itemData "job_id" i.jobId = true ∧
            (otherItems Char.isDigit "routing" s.cache i).isEmpty = true := by decide +kernel
  obtain ⟨hstatus, hown, hcarries, hothers⟩ := hfound i hi
  unfold Harmless
  rw [if_neg fun h => Option.some_ne_none "stopped" (hstatus.symm.trans h.2)]
  refine ⟨Or.inl ⟨"job_id", List.mem_cons_self, hcarries⟩, fun _ _ hempty => ?_, fun job _ _ x hx => ?_⟩
  · exact absurd (Option.some.inj (hown.symm.trans hempty)) (by decide)
  · rw [List.isEmpty_iff.mp hothers] at hx
    cases hx

/-- Delivered twice, the stop of a job without an item leaves two items. -/
theorem stopped_twice : ¬∀ (lower : String → String) (isDigit : Char → Bool) (company domain : String)
    (b : BusinessCache) (ds : List Arrival), ∀ pre, pre <+: ds → ∀ d, pre ++ [d] <+: ds → ∀ d' : Arrival,
      d'.message = d.message →
        (run (step lower isDigit company domain) ⟨b, []⟩ (pre ++ [d, d'])).cache =
          (run (step lower isDigit company domain) ⟨b, []⟩ (pre ++ [d])).cache := by
  intro h
  have hsame := h Text.lower Char.isDigit "c" "routing" ⟨fun _ => some [], none⟩ [arrival (syntheticStop "a")] []
    List.nil_prefix (arrival (syntheticStop "a")) (List.prefix_refl _) (arrival (syntheticStop "a")) rfl
  have hlength := congrArg (fun b => (itemsOf b).length) hsame
  revert hlength
  decide +kernel

end Pinnokio.Realtime.Redelivery
