import Mathlib.Data.Fintype.Defs
import Pinnokio.ActiveJobs.StatusAgreement
import Pinnokio.Lib.Runs
import Pinnokio.Lib.Shelves

/-!
# The lists of a domain

The cache of a domain holds its items in four lists.  Five functions move them, each with its own idea of which item is
meant: `ListManager.apply_status_change`, the subscriber's `_update_business_cache_item`, and the job actions
`_update_cache_after_delete`, `_add_to_routing_todo` and `_move_to_list_in_cache`.

An item is its scalar fields; nested data is carried along and looked at by none of them.
-/

namespace Pinnokio.Realtime

open Pinnokio.Text Pinnokio.ActiveJobs

/-! ### Items and lists -/

/-- An item of a list. -/
abbrev Item := Fields

/-- The lists. -/
inductive Category where
  | toProcess
  | inProcess
  | pending
  | processed
  deriving DecidableEq

/-- The lists in the order they are searched. -/
def Category.all : List Category := [.toProcess, .inProcess, .pending, .processed]

instance : Fintype Category := ⟨⟨Category.all, by decide⟩, fun c => by cases c <;> decide⟩

/-- The cache of a domain: the four lists, as far as they are there, and the list `items` of a cache that has none of
them. -/
structure BusinessCache where
  lists : Category → Option (List Item)
  items : Option (List Item)

/-- `item.get(k) == s`. -/
def has (item : Item) (k s : String) : Bool := (item.get k).same (.str s)

/-- An item that goes by an id: `id`, `job_id` or `expense_id`. -/
def goesBy (item : Item) (s : String) : Bool := has item "id" s || has item "job_id" s || has item "expense_id" s

namespace BusinessCache

/-- `cache_data.get(list_name, [])`. -/
def list (b : BusinessCache) (c : Category) : List Item := (b.lists c).getD []

/-- `cache_data[list_name] = items`. -/
def put (b : BusinessCache) (c : Category) (items : List Item) : BusinessCache :=
  { b with lists := Function.update b.lists c (some items) }

/-- The first item with a property, in the first list that has one. -/
def findIn (b : BusinessCache) (p : Item → Bool) : List Category → Option (Category × Item)
  | [] => none
  | c :: cs =>
      match (b.list c).find? p with
      | some item => some (c, item)
      | none => findIn b p cs

end BusinessCache

/-! ### Lists and statuses -/

section Statuses

/- The case mapping `str.lower` of the interpreter, for all of Unicode. -/
variable (lower : String → String)

/-- `StatusNormalizer.get_category`. -/
def getCategory (status : String) : Category :=
  if status ∈ ["in_queue", "on_process", "stopping"] then .inProcess
  else if status = "pending" then .pending
  else if status ∈ ["completed", "routed"] then .processed
  else .toProcess

/-- `ExpensesDomainConfig.get_list_for_status`. -/
def expensesListForStatus (status : String) : Category :=
  let statusLower := if status = "" then "to_process" else lower status
  if statusLower ∈ ["running", "in_process", "processing"] then .inProcess
  else if statusLower = "pending" then .pending
  else if statusLower ∈ ["close", "closed", "completed", "processed"] then .processed
  else .toProcess

/-- `get_list_for_status` of the configuration of a domain; `none` for a domain without one. -/
def getListForStatus (domain status : String) : Option Category :=
  if domain = "expenses" then some (expensesListForStatus lower status)
  else if domain ∈ ["routing", "invoices", "banking", "bank"] then some (getCategory status)
  else none

/-- `_get_target_category_key`. -/
def getTargetCategoryKey (status : String) : Category :=
  if status ∈ ["in_process", "on_process", "processing", "in_progress", "in_queue", "running", "stopping"] then
    .inProcess
  else if status ∈ ["pending", "pending_approval", "awaiting_approval"] then .pending
  else if status ∈ ["processed", "completed", "done", "close", "closed", "matched", "reconciled", "approved",
      "routed"] then .processed
  else .toProcess

/-- `(status or "").lower()`; `none` is the `AttributeError` of a status that is not a text. -/
def statusText : Scalar → Option String
  | .str s => some (if s = "" then "" else lower s)
  | v => if v.truthy then none else some ""

end Statuses

/-! ### `ListManager.apply_status_change` -/

/-- `_update_item`. -/
def updateItem (item : Item) (status now : String) (extraData : Fields) : Item :=
  ((item.set "status" (.str status)).set "updated_at" (.str now)).setAll extraData.entries

/-- Two items with the same id under the same name. -/
def isDuplicateOf (item existing : Item) : Bool :=
  ["id", "job_id", "expense_id"].any fun k => (item.get k).truthy && (existing.get k).same (item.get k)

/-- `_add_item_to_list`. -/
def addItemToList (b : BusinessCache) (item : Item) (c : Category) : BusinessCache :=
  b.put c (item :: (b.list c).filter fun existing => !isDuplicateOf item existing)

/-- The cache without the first item that goes by an id. -/
def removeItemFromList (b : BusinessCache) (itemId : String) (c : Category) : BusinessCache :=
  b.put c ((b.list c).eraseP fun item => goesBy item itemId)

/-- A call of `apply_status_change`. -/
structure StatusChange where
  itemIds : List String
  newStatus : String
  action : String
  extraData : Fields
  now : String

/-- One id of a call. -/
def changeStatusOf (q : StatusChange) (status : String) (toList : Category) (b : BusinessCache) (itemId : String) :
    BusinessCache :=
  match b.findIn (fun item => goesBy item itemId) Category.all with
  | none => b
  | some (source, item) =>
      let removed := removeItemFromList b itemId source
      if q.action = "delete" then removed
      else addItemToList removed (updateItem item status q.now q.extraData) toList

/-- `apply_status_change`. -/
def applyStatusChange (lower : String → String) (domain : String) (b : BusinessCache) (q : StatusChange) :
    BusinessCache :=
  let status := normalize lower q.newStatus "to_process"
  match getListForStatus lower domain status with
  | none => b
  | some toList => q.itemIds.foldl (changeStatusOf q status toList) b

/-! ### `_update_business_cache_item` -/

/-- A message: the job, its fields, and the maps below `department_data`. -/
structure ItemMessage where
  jobId : String
  itemData : Fields
  departmentData : Dict String Fields

section Match

/- The characters that `str.isdigit` accepts. -/
variable (isDigit : Char → Bool)

/-- `department_data.Bankbookeeper.transaction_id`, from the nested map. -/
def nestedTransactionId (m : ItemMessage) : String :=
  let bkData := ((m.departmentData.get? "Bankbookeeper").or ((m.departmentData.get? "banker").or
    (m.departmentData.get? "Banker"))).getD ∅
  if bkData.isEmpty then "" else (Fields.getD bkData "transaction_id" (.str "")).toStr

/-- The same from the dotted keys. -/
def dottedTransactionId (m : ItemMessage) : String :=
  let first := m.itemData.get "department_data.Bankbookeeper.transaction_id"
  let second := m.itemData.get "department_data.banker.transaction_id"
  if first.truthy then first.toStr else if second.truthy then second.toStr else ""

/-- The last part of a composite job id, if it is a number. -/
def lastSegmentId (jobId : String) : String :=
  if '_' ∈ jobId.toList then
    let segment := ((split jobId '_').getLast?).getD ""
    if segment ≠ "" ∧ segment.toList.all isDigit then segment else ""
  else ""

/-- `tx_id_for_match`, empty if there is none. -/
def txIdForMatch (domain : String) (m : ItemMessage) : String :=
  if domain ∈ ["bank", "banking"] then
    orElse (orElse (nestedTransactionId m) (dottedTransactionId m)) (lastSegmentId isDigit m.jobId)
  else ""

/-- The items a message is about. -/
def isMeant (domain : String) (m : ItemMessage) (item : Item) : Bool :=
  let txId := txIdForMatch isDigit domain m
  has item "job_id" m.jobId || has item "id" m.jobId || has item "task_id" m.jobId ||
    txId ≠ "" && ((Fields.getD item "id" (.str "")).toStr = txId ||
      (Fields.getD item "transaction_id" (.str "")).toStr = txId)

/-- The item a message is merged into. -/
def existingItem (domain : String) (b : BusinessCache) (m : ItemMessage) : Option Item :=
  (b.findIn (isMeant isDigit domain m) Category.all).map Prod.snd

/-- `{**existing_item, **item_data}`. -/
def mergedItem (domain : String) (b : BusinessCache) (m : ItemMessage) : Item :=
  match existingItem isDigit domain b m with
  | none => m.itemData
  | some existing => existing.setAll m.itemData.entries

/-- The new status; `none` is an error. -/
def messageStatus (lower : String → String) (domain : String) (b : BusinessCache) (m : ItemMessage) :
    Option String :=
  match statusText lower (m.itemData.get "status"), existingItem isDigit domain b m with
  | some "", some existing => statusText lower (existing.get "status")
  | status, _ => status

/-- The items that no message means, in all four lists. -/
def withoutMeant (domain : String) (b : BusinessCache) (m : ItemMessage) : BusinessCache :=
  { b with lists := fun c => some ((b.list c).filter fun item => !isMeant isDigit domain m item) }

/-- The list `items` of a cache without categories. -/
def mergeFlat (m : ItemMessage) (items : List Item) : List Item :=
  match items.findIdx? fun item => has item "job_id" m.jobId || has item "id" m.jobId with
  | none => m.itemData :: items
  | some i => items.modify i fun item => item.setAll m.itemData.entries

/-- `_update_business_cache_item`; an error leaves the cache as it is. -/
def updateBusinessCacheItem (lower : String → String) (domain : String) (b : BusinessCache) (m : ItemMessage) :
    BusinessCache :=
  if Category.all.any fun c => (b.lists c).isSome then
    match messageStatus isDigit lower domain b m with
    | none => b
    | some status =>
        let kept := withoutMeant isDigit domain b m
        let target := getTargetCategoryKey status
        kept.put target (mergedItem isDigit domain b m :: kept.list target)
  else { b with items := some (mergeFlat m (b.items.getD [])) }

end Match

/-! ### The job actions -/

/-- `_update_cache_after_delete`. -/
def updateCacheAfterDelete (b : BusinessCache) (deletedIds : List String) : BusinessCache :=
  { b with lists := fun c =>
      (b.lists c).map fun items => items.filter fun item => !deletedIds.any fun s => goesBy item s }

/-- An item that was moved on the drive. -/
structure MovedItem where
  driveFileId : String
  jobId : String
  fileName : String
  klkJobId : String
  collectionId : String
  mandatePath : String

/-- `drive_id`. -/
def MovedItem.driveId (m : MovedItem) : String := orElse m.driveFileId m.jobId

/-- An item with the id of a file under one of its names. -/
def hasDriveId (driveId : String) (item : Item) : Bool :=
  has item "drive_file_id" driveId || has item "id" driveId || has item "job_id" driveId

/-- An item that goes back to `to_process`. -/
def resetItem (now : String) (item : Item) : Item :=
  (item.set "status" (.str "to_process")).set "timestamp" (.str now)

/-- A new item for a file. -/
def newTodoItem (now : String) (m : MovedItem) : Item :=
  let item : Item := Dict.ofList [("id", .str m.driveId), ("job_id", .str m.driveId), ("file_name", .str m.fileName),
    ("drive_file_id", .str m.driveId), ("status", .str "to_process"), ("source", .str "drive"),
    ("timestamp", .str now)]
  ([("klk_job_id", m.klkJobId), ("collection_id", m.collectionId), ("mandate_path", m.mandatePath)].filter fun e =>
    e.2 ≠ "").foldl (fun item e => item.set e.1 (.str e.2)) item

/-- The first item of the other lists that has the id of a file, with its list. -/
def foundElsewhere (b : BusinessCache) (driveId : String) : Option (Category × Item) :=
  b.findIn (hasDriveId driveId) [.processed, .inProcess, .pending]

/-- The cache without the items that have the id, in the list where one was found. -/
def takeFromList (b : BusinessCache) (driveId : String) : BusinessCache :=
  match foundElsewhere b driveId with
  | none => b
  | some (c, _) => b.put c ((b.list c).filter fun item => !hasDriveId driveId item)

/-- The new list `to_process`. -/
def todoList (now : String) (b : BusinessCache) (m : MovedItem) : List Item :=
  match (b.list .toProcess).findIdx? (hasDriveId m.driveId) with
  | some i => (b.list .toProcess).modify i (resetItem now)
  | none =>
      match foundElsewhere b m.driveId with
      | some (_, item) => b.list .toProcess ++ [resetItem now item]
      | none => b.list .toProcess ++ [newTodoItem now m]

/-- One item of `_add_to_routing_todo`. -/
def addOneToTodo (now : String) (b : BusinessCache) (m : MovedItem) : BusinessCache :=
  if m.driveId = "" then b else (takeFromList b m.driveId).put .toProcess (todoList now b m)

/-- `_add_to_routing_todo`. -/
def addToRoutingTodo (now : String) (b : BusinessCache) (moved : List MovedItem) : BusinessCache :=
  if moved = [] then b
  else
    let b := moved.foldl (addOneToTodo now) b
    b.put .toProcess (b.list .toProcess)

/-- `_move_to_list_in_cache`. -/
def moveToListInCache (lower : String → String) (domain now : String) (b : BusinessCache)
    (jobId targetStatus : String) : BusinessCache :=
  let isItem := fun item : Item => ((item.get "id").or (item.get "job_id")).same (.str jobId)
  match getListForStatus lower domain targetStatus, b.findIn isItem Category.all with
  | some target, some (source, item) =>
      let b := b.put source ((b.list source).eraseP isItem)
      b.put target ((item.set "status" (.str targetStatus)).set "updated_at" (.str now) :: b.list target)
  | _, _ => b

end Pinnokio.Realtime
