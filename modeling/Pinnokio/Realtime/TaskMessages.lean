import Pinnokio.Realtime.ItemsKept

/-!
# The item of a task_manager message

`_handle_task_manager_message` normalises the status of a message, publishes its category, and hands the item of the
message to `_update_business_cache_item`, which reads the status of the item through a table of its own.

* `itemMessage` — what the writer of the cache is handed;
* `getCategory_normalized` — the words of each published category;
* `categories_agree_iff` — **when the list of the cache is the published category**.
-/

namespace Pinnokio.Realtime.TaskMessages

open Pinnokio Pinnokio.Text Pinnokio.ActiveJobs Pinnokio.Realtime

/-! ### Messages -/

/-- An object of a message: its scalar fields, and the maps below its `department_data`. -/
structure Record where
  fields : Fields
  departmentData : Dict String Fields

/-- What a message has under the key `data`. -/
inductive NestedData where
  | absent
  | object (r : Record)
  | other

/-- A text. -/
def isText : Scalar → Bool
  | .str _ => true
  | _ => false

/-- A message of the channel `user:{uid}/task_manager`; the id of the job and the department are texts. -/
structure TaskMessage where
  top : Record
  data : NestedData
  texts : ∀ k ∈ ["job_id", "department"], isText (Fields.getD top.fields k (.str "unknown")) = true

/-- `_sanitize_value` on a field; `now` is the time it reads. -/
def sanitize (now : String) : Scalar → Scalar
  | .str s => .str (sanitizeValue now s)
  | v => v

/-- An object whose fields are sanitized. -/
def Record.sanitized (now : String) (r : Record) : Record := { r with fields := r.fields.mapValues (sanitize now) }

/-- The text of a list. -/
def categoryKey : Category → String
  | .toProcess => "to_process"
  | .inProcess => "in_process"
  | .pending => "pending"
  | .processed => "processed"

namespace TaskMessage

/-- `message_data.get(k, "unknown")`. -/
def text (m : TaskMessage) (k : String) : String := (Fields.getD m.top.fields k (.str "unknown")).toStr

/-- The domain of the department. -/
def domain (m : TaskMessage) : String := extractDepartmentToDomain (m.text "department")

/-- `collection_id or company_id`. -/
def company (now : String) (m : TaskMessage) : Scalar :=
  ((m.top.sanitized now).fields.get "collection_id").or ((m.top.sanitized now).fields.get "company_id")

/-- `raw_status`, empty if there is none; `none` is the `AttributeError` of a status that is not a text. -/
def rawStatus (now : String) (m : TaskMessage) : Option String :=
  statusText id ((m.top.sanitized now).fields.get "status")

/-- The message is meant for another handler. -/
def intercepted (m : TaskMessage) : Bool :=
  m.domain = "coa" ∧ (has m.top.fields "type" "coa_harmonized" ∨ has m.top.fields "type" "gl_sync_requested")

end TaskMessage

/-! ### The item of a message -/

/-- The first map below `department_data` that is there and has fields. -/
def subMap (departmentData : Dict String Fields) (names : List String) : Fields :=
  ((names.map fun name => (departmentData.get? name).getD ∅).find? fun sub => !sub.isEmpty).getD ∅

/-- The keys of a map that an item does not have. -/
def flattenKeys (keys : List String) (sub item : Fields) : Fields :=
  keys.foldl (fun item k =>
    match sub.get? k with
    | some v => Fields.setDefault item k v
    | none => item) item

/-- The fields of the department, at the top level of the item. -/
def flatten (domain jobId : String) (departmentData : Dict String Fields) (item : Fields) : Fields :=
  if domain = "routing" then
    let service := (subMap departmentData ["Router", "router"]).get "selected_service"
    if service.truthy then item.set "routed_to" service else item
  else if domain = "expenses" then
    let sub := subMap departmentData ["EXbookeeper", "exbookeeper"]
    if sub.isEmpty then item
    else
      Fields.setDefault (flattenKeys ["supplier", "amount", "date", "currency", "category", "description",
        "payment_method"] sub item) "expense_id" (.str jobId)
  else if domain = "invoices" then
    flattenKeys ["supplier_name", "invoice_ref", "invoice_description", "invoice_date", "due_date",
      "accounting_date", "amount_vat_excluded", "amount_vat_included", "amount_vat", "currency", "currency_rate",
      "accounting_lines"] (subMap departmentData ["APbookeeper", "Apbookeeper", "apbookeeper"]) item
  else if domain ∈ ["bank", "banking"] then
    flattenKeys ["step_id", "step_label", "result_code", "reconciliation_details"]
      (subMap departmentData ["Bankbookeeper", "banker", "Banker"]) item
  else item

/-- The step of a message; an invoice may have it below its department. -/
def liftedValue (domain : String) (departmentData : Dict String Fields) (item : Fields) (key : String) : Scalar :=
  let own := item.get key
  if own.truthy ∨ domain ≠ "invoices" then own
  else
    ((["APbookeeper", "Apbookeeper", "apbookeeper"].filterMap fun variant =>
      (departmentData.get? variant).bind fun sub => sub.get? key).head?).getD own

/-- One key of the generic lift. -/
def lift (domain : String) (departmentData : Dict String Fields) (item : Fields) (key : String) : Fields :=
  let v := liftedValue domain departmentData item key
  if v.truthy then Fields.setDefault item key v else item

/-- The prefix of the dotted keys. -/
def dotPrefix : List Char := "department_data.Bankbookeeper.".toList

/-- One dotted key. -/
def flattenDot (item : Fields) (key : String) : Fields :=
  let shortKey := String.ofList (key.toList.drop dotPrefix.length)
  if shortKey = "" then item else Fields.setDefault item shortKey (item.get key)

/-- The dotted keys of a bank item, at its top level. -/
def flattenDots (domain : String) (item : Fields) : Fields :=
  if domain ∈ ["bank", "banking"] then
    (item.keys.filter fun k => dotPrefix.isPrefixOf k.toList).foldl flattenDot item
  else item

/-- The item, from the object it is in. -/
def prepareItem (domain jobId : String) (r : Record) : Fields :=
  let item := flatten domain jobId r.departmentData r.fields
  flattenDots domain (["current_step", "current_step_technical"].foldl (lift domain r.departmentData) item)

section Handler

/- The case mapping `str.lower` of the interpreter, for all of Unicode. -/
variable (lower : String → String)

namespace TaskMessage

/-- `normalized_status`. -/
def normalizedStatus (m : TaskMessage) (rawStatus : String) : String :=
  let department := m.text "department"
  normalizeForFunction lower (if department = "unknown" then "" else lower department) rawStatus "to_process"

/-- `status_category`, if the message has a status. -/
def statusCategory (now : String) (m : TaskMessage) : Option Category :=
  match m.rawStatus now with
  | some rawStatus => if rawStatus = "" then none else some (getCategory (m.normalizedStatus lower rawStatus))
  | none => none

/-- The message itself, with the normalised status. -/
def normalizedTop (now : String) (m : TaskMessage) (rawStatus : String) : Record :=
  let top := m.top.sanitized now
  if rawStatus = "" then top
  else
    let status := m.normalizedStatus lower rawStatus
    let category := categoryKey (getCategory status)
    { top with fields := (top.fields.set "status" (.str status)).set "status_category" (.str category) }

/-- `item_data`: the nested object, or the message; what is no object is an error. -/
def itemRecord (now : String) (m : TaskMessage) (rawStatus : String) : Option Record :=
  match m.data with
  | .absent => some (m.normalizedTop lower now rawStatus)
  | .object r =>
      let r := r.sanitized now
      if rawStatus = "" then some r
      else some { r with fields := Fields.setDefault r.fields "status" (.str (m.normalizedStatus lower rawStatus)) }
  | .other => none

end TaskMessage

/-- What `_handle_task_manager_message` hands to `_update_business_cache_item`; `none` if it does not come to that. -/
def itemMessage (now : String) (m : TaskMessage) : Option ItemMessage :=
  if (m.company now).truthy = false ∨ m.domain = "" ∨ m.intercepted then none
  else
    match m.rawStatus now with
    | none => none
    | some rawStatus =>
        if m.domain = "hr" then none
        else
          (m.itemRecord lower now rawStatus).map fun r =>
            { jobId := m.text "job_id"
              itemData := prepareItem m.domain (m.text "job_id") r
              departmentData := r.departmentData }

/-! ### The two tables -/

/-- The category that is published for a text: the words of the normaliser's table. -/
def publishedCategory (key : String) : Category :=
  if key ∈ ["running", "processing", "in queue", "in_queue", "queued", "on_process", "stopping"] then .inProcess
  else if key = "pending" then .pending
  else if key ∈ ["success", "close", "closed", "done", "finished", "completed", "routed"] then .processed
  else .toProcess

theorem rawToNormalized_category :
    ∀ e ∈ rawToNormalized.entries, getCategory e.2.value = publishedCategory e.1 := by decide

theorem functionSpecificOverrides_category :
    ∀ f ∈ functionSpecificOverrides.entries, ∀ e ∈ f.2.entries,
      getCategory e.2.value = publishedCategory e.1 ∧ e.1 ∈ rawToNormalized.keys := by decide

/-- The two tables agree on the statuses sent to the interface. -/
theorem getTargetCategoryKey_value (s : NormalizedStatus) : getTargetCategoryKey s.value = getCategory s.value := by
  cases s <;> decide

/-- A text outside the table is published under `to_process`. -/
theorem category_of_not_mem {key : String} (h : key ∉ rawToNormalized.keys) :
    getCategory key = .toProcess ∧ publishedCategory key = .toProcess := by
  have hmem : ∀ w ∈ ["in_queue", "on_process", "stopping", "pending", "completed", "routed", "running", "processing",
      "in queue", "queued", "success", "close", "closed", "done", "finished"], key ≠ w := by
    intro w hw heq
    subst heq
    revert h
    revert hw
    generalize key = w
    revert w
    decide
  simp only [List.mem_cons, List.not_mem_nil, or_false, forall_eq_or_imp, forall_eq] at hmem
  constructor
  · simp [getCategory, hmem]
  · simp [publishedCategory, hmem]

variable {lower}

/-- What the normaliser makes of a text: a status of the interface if it knows the text, which is passed on if not. -/
theorem normalizeForFunction_cases (lower : String → String) {rawStatus : String} (hraw : rawStatus ≠ "") (functionName default : String) :
    (normalizedKey lower rawStatus ∈ rawToNormalized.keys ∧
        ∃ s : NormalizedStatus, normalizeForFunction lower functionName rawStatus default = s.value ∧
          getCategory s.value = publishedCategory (normalizedKey lower rawStatus)) ∨
      (normalizedKey lower rawStatus ∉ rawToNormalized.keys ∧
        normalizeForFunction lower functionName rawStatus default = normalizedKey lower rawStatus) := by
  rw [normalizeForFunction, if_neg hraw]
  cases hover : overrideFor lower functionName rawStatus with
  | some s =>
      obtain ⟨f, hf, hentry⟩ := overrideFor_eq_some hover
      obtain ⟨hcategory, hkey⟩ := functionSpecificOverrides_category f hf _ hentry
      exact Or.inl ⟨hkey, s, rfl, hcategory⟩
  | none =>
      dsimp only
      rw [ActiveJobs.normalize, if_neg hraw]
      cases hget : rawToNormalized.get? (normalizedKey lower rawStatus) with
      | some s =>
          refine Or.inl ⟨Dict.mem_keys_of_get? hget, s, rfl, ?_⟩
          exact rawToNormalized_category _ (Dict.mem_entries_iff.mpr hget)
      | none => exact Or.inr ⟨Dict.get?_eq_none_iff.mp hget, rfl⟩

/-- **The words of each published category.** -/
theorem getCategory_normalized {rawStatus : String} (hraw : rawStatus ≠ "") (functionName default : String) :
    getCategory (normalizeForFunction lower functionName rawStatus default) =
      publishedCategory (normalizedKey lower rawStatus) := by
  rcases normalizeForFunction_cases lower hraw functionName default with ⟨-, s, hs, hcategory⟩ | ⟨hout, hs⟩
  · rw [hs, hcategory]
  · rw [hs, (category_of_not_mem hout).1, (category_of_not_mem hout).2]

/-! ### The status of the item -/

/-- The second object has the values of the first at a key the first has. -/
def Keeps (k : String) (f g : Fields) : Prop := k ∈ f.keys → k ∈ g.keys ∧ g.get k = f.get k

variable {k : String} {f g h : Fields}

theorem Keeps.refl (k : String) (f : Fields) : Keeps k f f := fun hk => ⟨hk, rfl⟩

theorem Keeps.trans (hfg : Keeps k f g) (hgh : Keeps k g h) : Keeps k f h := by
  intro hk
  obtain ⟨hkg, heq⟩ := hfg hk
  obtain ⟨hkh, heq'⟩ := hgh hkg
  exact ⟨hkh, heq'.trans heq⟩

theorem keeps_set {k' : String} (hk : k' ≠ k) (f : Fields) (v : Scalar) : Keeps k f (f.set k' v) := by
  intro hkf
  exact ⟨Dict.mem_keys_set.mpr (Or.inr hkf), by rw [get_set, if_neg hk.symm]⟩

theorem keeps_setDefault (k : String) (f : Fields) (k' : String) (v : Scalar) :
    Keeps k f (Fields.setDefault f k' v) := by
  unfold Fields.setDefault
  split
  · exact Keeps.refl k f
  · next hnew =>
    intro hk
    have hne : k' ≠ k := fun heq => hnew (heq ▸ hk)
    exact keeps_set hne f v hk

theorem keeps_foldl {α : Type*} {step : Fields → α → Fields} (hstep : ∀ f x, Keeps k f (step f x)) (xs : List α)
    (f : Fields) : Keeps k f (xs.foldl step f) := by
  induction xs generalizing f with
  | nil => exact Keeps.refl k f
  | cons x xs ih => exact (hstep f x).trans (ih (step f x))

theorem keeps_flattenKeys (keys : List String) (sub item : Fields) : Keeps k item (flattenKeys keys sub item) := by
  refine keeps_foldl (fun item k' => ?_) keys item
  split
  · exact keeps_setDefault _ _ _ _
  · exact Keeps.refl _ _

/-- **The item keeps the fields of its object**, but for `routed_to`. -/
theorem keeps_prepareItem (hk : k ≠ "routed_to") (domain jobId : String) (r : Record) :
    Keeps k r.fields (prepareItem domain jobId r) := by
  have hflatten : Keeps k r.fields (flatten domain jobId r.departmentData r.fields) := by
    unfold flatten
    split
    · dsimp only
      split
      · exact keeps_set hk.symm _ _
      · exact Keeps.refl _ _
    split
    · dsimp only
      split
      · exact Keeps.refl _ _
      · exact (keeps_flattenKeys _ _ _).trans (keeps_setDefault _ _ _ _)
    split
    · exact keeps_flattenKeys _ _ _
    split
    · exact keeps_flattenKeys _ _ _
    · exact Keeps.refl _ _
  have hlift : ∀ item, Keeps k item
      (["current_step", "current_step_technical"].foldl (lift domain r.departmentData) item) := by
    refine keeps_foldl (fun item key => ?_) _
    unfold lift
    dsimp only
    split
    · exact keeps_setDefault _ _ _ _
    · exact Keeps.refl _ _
  have hdots : ∀ item, Keeps k item (flattenDots domain item) := by
    intro item
    unfold flattenDots
    split
    · refine keeps_foldl (fun item key => ?_) _ item
      unfold flattenDot
      dsimp only
      split
      · exact Keeps.refl _ _
      · exact keeps_setDefault _ _ _ _
    · exact Keeps.refl _ _
  exact (hflatten.trans (hlift _)).trans (hdots _)

end Handler

section Categories

variable (lower : String → String) (isDigit : Char → Bool)

/-- The status of the nested object, if it has one of its own. -/
def TaskMessage.ownStatus (now : String) (m : TaskMessage) : Option Scalar :=
  match m.data with
  | .object r => (r.sanitized now).fields.get? "status"
  | _ => none

/-- `uses_categorized_lists`. -/
def usesCategorizedLists (b : BusinessCache) : Bool := Category.all.any fun c => (b.lists c).isSome

/-- The list in which `_update_business_cache_item` puts the item, if it puts it in one of the four. -/
def cachedCategory (domain : String) (b : BusinessCache) (i : ItemMessage) : Option Category :=
  if usesCategorizedLists b then (messageStatus isDigit lower domain b i).map getTargetCategoryKey else none

/-- The word of an item is in the list of the category that is published for a text. -/
def SameTab (key : String) (word : String) : Prop := getTargetCategoryKey word = publishedCategory key

/-- The status that the cache goes by is the normaliser's, or a word that is in the same tab in both tables: the status
of the nested object or the text that the normaliser passes on, or that of the cached item if it is empty. -/
def StatusesAgree (now : String) (b : BusinessCache) (m : TaskMessage) (i : ItemMessage) (rawStatus : String) : Prop :=
  let key := normalizedKey lower rawStatus
  (m.ownStatus now = none ∧ key ∈ rawToNormalized.keys) ∨
    match statusText lower ((m.ownStatus now).getD (.str key)), existingItem isDigit m.domain b i with
    | none, _ => True
    | some "", none => SameTab key ""
    | some "", some existing => ∀ word, statusText lower (existing.get "status") = some word → SameTab key word
    | some word, _ => SameTab key word

variable {lower isDigit} {now : String} {b : BusinessCache} {m : TaskMessage} {i : ItemMessage} {rawStatus : String}

/-- What the writer is handed comes from the message with its status. -/
theorem itemMessage_eq_some (hi : itemMessage lower now m = some i) :
    ∃ rawStatus r, m.rawStatus now = some rawStatus ∧ m.itemRecord lower now rawStatus = some r ∧
      i = ⟨m.text "job_id", prepareItem m.domain (m.text "job_id") r, r.departmentData⟩ := by
  unfold itemMessage at hi
  split at hi
  · cases hi
  split at hi
  · cases hi
  · next rawStatus hraw =>
    split at hi
    · cases hi
    · obtain ⟨r, hr, rfl⟩ := Option.map_eq_some_iff.mp hi
      exact ⟨rawStatus, r, hraw, hr, rfl⟩

/-- The status of the item: its own, or that of the message. -/
theorem status_itemMessage (hi : itemMessage lower now m = some i) (hraw : m.rawStatus now = some rawStatus)
    (hne : rawStatus ≠ "") :
    i.itemData.get "status" = (m.ownStatus now).getD (.str (m.normalizedStatus lower rawStatus)) := by
  obtain ⟨raw, r, hraw', hr, rfl⟩ := itemMessage_eq_some hi
  rw [hraw] at hraw'
  cases hraw'
  -- the object of the item has a status, which is kept
  suffices h : "status" ∈ r.fields.keys ∧
      r.fields.get "status" = (m.ownStatus now).getD (.str (m.normalizedStatus lower rawStatus)) by
    dsimp only
    rw [(keeps_prepareItem (by decide) m.domain (m.text "job_id") r h.1).2, h.2]
  unfold TaskMessage.itemRecord at hr
  unfold TaskMessage.ownStatus
  split at hr
  · cases hr
    next hdata =>
    rw [hdata]
    simp only [TaskMessage.normalizedTop, if_neg hne]
    refine ⟨Dict.mem_keys_set.mpr (Or.inr (Dict.mem_keys_set.mpr (Or.inl rfl))), ?_⟩
    rw [get_set, if_neg (by decide), get_set, if_pos rfl]
    rfl
  · next nested hdata =>
    rw [hdata]
    simp only [if_neg hne, Option.some.injEq] at hr
    subst hr
    simp only [Fields.setDefault]
    by_cases hown : "status" ∈ (nested.sanitized now).fields.keys
    · obtain ⟨v, hv⟩ := Dict.mem_keys_iff.mp hown
      rw [if_pos hown, Fields.get, hv]
      exact ⟨hown, rfl⟩
    · rw [if_neg hown, get_set, if_pos rfl, Dict.get?_eq_none_iff.mpr hown]
      exact ⟨Dict.mem_keys_set.mpr (Or.inl rfl), rfl⟩
  · cases hr

/-- The item is taken out of every list and put at the head of the list of its status. -/
theorem update_of_cachedCategory {domain : String} {c : Category}
    (h : cachedCategory lower isDigit domain b i = some c) :
    updateBusinessCacheItem isDigit lower domain b i =
      (withoutMeant isDigit domain b i).put c
        (mergedItem isDigit domain b i :: (withoutMeant isDigit domain b i).list c) := by
  unfold cachedCategory at h
  split at h
  · next hlists =>
    obtain ⟨status, hstatus, rfl⟩ := Option.map_eq_some_iff.mp h
    unfold usesCategorizedLists at hlists
    unfold updateBusinessCacheItem
    rw [if_pos hlists, hstatus]
  · cases h

/-- A status of the item's own is what the cache goes by. -/
theorem messageStatus_of_ne {domain word : String} (h : statusText lower (i.itemData.get "status") = some word)
    (hne : word ≠ "") : messageStatus isDigit lower domain b i = some word := by
  unfold messageStatus
  rw [h]
  simp [hne]

/-- What holds of the word that the lists are searched by, read off the item and the cached item. -/
theorem forall_messageStatus_iff (P : String → Prop) (domain : String) :
    (∀ word, messageStatus isDigit lower domain b i = some word → P word) ↔
      match statusText lower (i.itemData.get "status"), existingItem isDigit domain b i with
      | none, _ => True
      | some "", none => P ""
      | some "", some existing => ∀ word, statusText lower (existing.get "status") = some word → P word
      | some word, _ => P word := by
  unfold messageStatus
  cases statusText lower (i.itemData.get "status") with
  | none => simp
  | some word =>
      by_cases hempty : word = ""
      · subst hempty
        cases existingItem isDigit domain b i <;> simp
      · simp [hempty]

/-- **Cached category and published category**: a message with a status puts the item of a cache with lists in the list
that is published exactly when the two tables agree on the status that the cache goes by. -/
theorem categories_agree_iff (lower : String → String) (hlower : ∀ s : NormalizedStatus, lower s.value = s.value)
    (isDigit : Char → Bool) (now : String) (b : BusinessCache) (m : TaskMessage) (i : ItemMessage)
    (hi : itemMessage lower now m = some i) (rawStatus : String) (hraw : m.rawStatus now = some rawStatus)
    (hne : rawStatus ≠ "") :
    (∀ c, cachedCategory lower isDigit m.domain b i = some c → m.statusCategory lower now = some c) ↔
      (usesCategorizedLists b = true → StatusesAgree lower isDigit now b m i rawStatus) := by
  have hpublished : m.statusCategory lower now = some (publishedCategory (normalizedKey lower rawStatus)) := by
    rw [TaskMessage.statusCategory, hraw]
    simp only [if_neg hne]
    rw [TaskMessage.normalizedStatus, getCategory_normalized hne]
  rw [hpublished]
  cases hlists : usesCategorizedLists b with
  | false => simp [cachedCategory, hlists]
  | true =>
    have hcached : (∀ c, cachedCategory lower isDigit m.domain b i = some c →
        some (publishedCategory (normalizedKey lower rawStatus)) = some c) ↔
          ∀ word, messageStatus isDigit lower m.domain b i = some word →
            SameTab (normalizedKey lower rawStatus) word := by
      simp only [cachedCategory, hlists, if_true, Option.map_eq_some_iff, Option.some.injEq, SameTab]
      constructor
      · exact fun h word hword => (h _ ⟨word, hword, rfl⟩).symm
      · intro h c hc
        obtain ⟨word, hword, rfl⟩ := hc
        exact (h word hword).symm
    rw [hcached]
    simp only [true_implies]
    have hstatus := status_itemMessage hi hraw hne
    unfold TaskMessage.normalizedStatus at hstatus
    dsimp only at hstatus
    unfold StatusesAgree
    dsimp only
    rcases normalizeForFunction_cases lower hne
        (if m.text "department" = "unknown" then "" else lower (m.text "department")) "to_process" with
      ⟨hknown, s, hs, hcategory⟩ | ⟨hunknown, hs⟩
    · cases hown : m.ownStatus now with
      | some v =>
          rw [hown, Option.getD_some] at hstatus
          rw [forall_messageStatus_iff, hstatus, or_iff_right fun h => Option.some_ne_none v h.1]
          rfl
      | none =>
          -- the normaliser knows the text, and the cache goes by its status
          have hword : statusText lower (i.itemData.get "status") = some s.value := by
            rw [hstatus, hown, hs, Option.getD_none, statusText, hlower]
            cases s <;> rfl
          rw [messageStatus_of_ne hword (by cases s <;> decide)]
          refine iff_of_true (fun word hw => ?_) (Or.inl ⟨rfl, hknown⟩)
          cases hw
          exact (getTargetCategoryKey_value s).trans hcategory
    · rw [hs] at hstatus
      rw [forall_messageStatus_iff, hstatus, or_iff_right fun h => hunknown h.2]

end Categories

/-- A message of the router about the file a, with what it has under `data`. -/
def routerMessage (status : String) (data : NestedData) : TaskMessage where
  top := ⟨Dict.ofList [("job_id", .str "a"), ("department", .str "Router"), ("collection_id", .str "c"),
    ("status", .str status)], ∅⟩
  data := data
  texts := by
    intro k hk
    simp only [List.mem_cons, List.not_mem_nil, or_false] at hk
    rcases hk with rfl | rfl <;> rfl

theorem lower_value (s : NormalizedStatus) : Text.lower s.value = s.value := by cases s <;> rfl

/-- `routed` is a status of both tables. -/
theorem categories_agree_routed :
    let m := routerMessage "routed" .absent
    ∃ i, itemMessage Text.lower "now" m = some i ∧
      ∀ c, cachedCategory Text.lower Char.isDigit m.domain (oneOpenItem "a") i = some c →
        m.statusCategory Text.lower "now" = some c := by
  intro m
  have hsome : (itemMessage Text.lower "now" m).isSome = true := by decide +kernel
  obtain ⟨i, hi⟩ := Option.isSome_iff_exists.mp hsome
  refine ⟨i, hi, ?_⟩
  exact (categories_agree_iff Text.lower lower_value Char.isDigit "now" (oneOpenItem "a") m i hi "routed"
    (by decide +kernel) (by decide)).mpr fun _ => Or.inl ⟨rfl, by decide⟩

/-- A nested status is not normalised: `success` is published as processed, and the cache has the file to process. -/
theorem categories_disagree : ¬∀ (lower : String → String), (∀ s : NormalizedStatus, lower s.value = s.value) →
    ∀ (isDigit : Char → Bool) (now : String) (b : BusinessCache) (m : TaskMessage) (i : ItemMessage),
      itemMessage lower now m = some i → m.statusCategory lower now ≠ none →
        ∀ c, cachedCategory lower isDigit m.domain b i = some c → m.statusCategory lower now = some c := by
  intro h
  let m := routerMessage "success" (.object ⟨Dict.ofList [("job_id", .str "a"), ("status", .str "success")], ∅⟩)
  have hsome : (itemMessage Text.lower "now" m).isSome = true := by decide +kernel
  obtain ⟨i, hi⟩ := Option.isSome_iff_exists.mp hsome
  have hcached : ∀ i ∈ itemMessage Text.lower "now" m,
      cachedCategory Text.lower Char.isDigit m.domain (oneOpenItem "a") i = some .toProcess := by decide +kernel
  have hcategory := h Text.lower lower_value Char.isDigit "now" (oneOpenItem "a") m i hi (by decide +kernel)
    .toProcess (hcached i hi)
  exact absurd hcategory (by decide +kernel)

end Pinnokio.Realtime.TaskMessages
