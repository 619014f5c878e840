import Mathlib.Tactic.NormNum
import Pinnokio.Lib.RecentWindow
import Pinnokio.Lib.Text
import Pinnokio.Realtime.UserCache

/-!
# Notifications

A message on the notifications channel is a signal: the handler reads the whole document of the notification from the
store, or makes do with the message if it cannot, and puts it at the head of the user's cached list, in the place of
the one with the same `docId`.  The list has 100 places, and its key a lifetime of a day from the last write.

* `upsertNotification_holding` — what one message does to a list of notifications;
* `written_of_writable` — a message is written if the fields that are taken over from its document are JSON values;
* `notification_window` — **after any messages, the list is the window of those that were written since the key was last
  missing**, and `ws_action` says whether the notification was in it.
-/

namespace Pinnokio.Realtime.UserCache.Notifications

open Pinnokio.RecentWindow

/-! ### A notification -/

/-- The text functions of the interpreter: `str.lower`, `str(v)`, `json.loads(s)` and `json.dumps(v, indent=2)`. -/
structure TextFunctions where
  lower : String → String
  str : Data → String
  loads : String → Option Data
  dumps : Data → String

/-- A field of a document of the store. -/
inductive FieldValue where
  | json (v : Data)
  | time (isoformat text : String)
  /-- Any other value that `json.dumps` refuses, with its `str(v)` and its truth value. -/
  | other (text : String) (truth : Bool)

/-- The fields of a document. -/
abbrev Fields := List (String × FieldValue)

namespace FieldValue

/-- The truth value the interpreter gives a field. -/
def truthy : FieldValue → Bool
  | json v => v.truthy
  | time _ _ => true
  | other _ truth => truth

/-- `str(v)`, where `str` is that of the JSON values. -/
def toStr (str : Data → String) : FieldValue → String
  | json v => str v
  | time _ text => text
  | other text _ => text

/-- The value as `json.dumps` writes it; `none` is the `TypeError` of a value that it does not know. -/
def toData : FieldValue → Option Data
  | json v => some v
  | _ => none

end FieldValue

/-- `data.get(k, default)`. -/
def getOr (data : Fields) (k : String) (default : FieldValue) : FieldValue := (Dict.getList k data).getD default

/-- `data.get(k, data.get(k', default))`. -/
def either (data : Fields) (k k' : String) (default : Data := .str "") : FieldValue :=
  getOr data k (getOr data k' (.json default))

/-- `FUNCTION_NAME_NORMALIZE`. -/
def functionNameNormalize : Dict String String :=
  Dict.ofList [("router", "Router"), ("apbookeeper", "APbookeeper"), ("bankbookeeper", "Bankbookeeper"),
    ("onboarding", "Onboarding")]

/-- `_resolve_notification_doc_id`. -/
def resolveNotificationDocId (messageData : Object) : Data :=
  let nested := (field messageData "update_data").or (field messageData "data")
  let driveId :=
    match nested.asDict with
    | some d => (field d "drive_id").or (field messageData "drive_id")
    | none => field messageData "drive_id"
  driveId.or ((messageData.get? "job_id").getD (.str ""))

section Transform

variable (F : TextFunctions)

/-- `additional_info_formatted`; `none` is the `TypeError` of information that `json.dumps` does not know. -/
def additionalInfoFormatted (additionalInfo : FieldValue) : Option String :=
  if additionalInfo.truthy then
    match additionalInfo with
    | .json (.str s) => some (((F.loads s).map F.dumps).getD s)
    | v => v.toData.map F.dumps
  else some ""

/-- `timestamp`. -/
def timestampOf : Option FieldValue → String
  | none | some (.json .null) => ""
  | some (.time isoformat _) => isoformat
  | some (.json (.str s)) => if "Sentinel:".toList.isPrefixOf s.toList then "" else s
  | some v => v.toStr F.str

/-- `function_name`. -/
def functionNameOf (data : Fields) : FieldValue :=
  match either data "function_name" "functionName" (.str "Router") with
  | .json (.str s) => .json (.str ((functionNameNormalize.get? (F.lower s)).getD s))
  | v => v

/-- `message`: its own text, or one made of the name of the file and the status. -/
def messageOf (data : Fields) : FieldValue :=
  let message := getOr data "message" (.json (.str ""))
  let fileName := either data "file_name" "fileName"
  if !message.truthy && fileName.truthy then
    .json (.str (fileName.toStr F.str ++ " - " ++ (getOr data "status" (.json (.str "pending"))).toStr F.str))
  else message

/-- `_transform_notification`; `none` is an error. -/
def transformNotification (docId : Data) (data : Fields) : Option Fields :=
  let additionalInfo := getOr data "additional_info" (.json (.str ""))
  (additionalInfoFormatted F additionalInfo).map fun formatted =>
    [("docId", .json docId),
      ("message", messageOf F data),
      ("fileName", either data "file_name" "fileName"),
      ("collectionId", either data "collection_id" "collectionId"),
      ("collectionName", either data "collection_name" "collectionName"),
      ("status", getOr data "status" (.json (.str "pending"))),
      ("read", getOr data "read" (.json (.bool false))),
      ("jobId", either data "job_id" "jobId"),
      ("fileId", either data "file_id" "fileId"),
      ("functionName", functionNameOf F data),
      ("timestamp", .json (.str (timestampOf F (Dict.getList "timestamp" data)))),
      ("additionalInfo", additionalInfo),
      ("hasAdditionalInfo", .json (.bool additionalInfo.truthy)),
      ("additionalInfoFormatted", .json (.str formatted)),
      ("driveLink", either data "drive_link" "driveLink"),
      ("batchId", either data "batch_id" "batchId")]

/-- `flat`: the message, with the nested fields that it has not itself. -/
def flatten (messageData : Object) : Fields :=
  let nested := (((field messageData "update_data").or (field messageData "data")).asDict).getD []
  let flat := nested.foldl (fun flat e => if (Object.get? flat e.1).isSome then flat else flat ++ [e]) messageData
  flat.map fun e => (e.1, .json e.2)

/-- The notification of a message: from the document of the store, where it could be read and is not empty, or else
from the message itself. -/
def notificationData (docId : Data) (messageData : Object) (document : Option Fields) : Option Fields :=
  let fromStore := document.bind fun rawDoc => if rawDoc = [] then none else transformNotification F docId rawDoc
  fromStore.or (transformNotification F docId (flatten messageData))

end Transform

/-! ### The cache -/

/-- The items without those of a notification; `none` is the error of an item that is not a dict. -/
def withoutDocId (docId : Data) : List Data → Option (List Data)
  | [] => some []
  | v :: vs =>
      match v.asDict, withoutDocId docId vs with
      | some item, some rest => some (if (field item "docId").same docId then rest else v :: rest)
      | _, _ => none

/-- The fields as `json.dumps` writes them. -/
def dumpsFields (data : Fields) : Option Object := data.mapM fun e => e.2.toData.map (Prod.mk e.1)

/-- `notif_cache`; `none` is the error of a cached value that has no `get`. -/
def notifCache : Option Data → Option Object
  | none => some []
  | some (.list items) => some [("items", .list items)]
  | some v => v.asDict

/-- `ws_action` and the new value of the key, if it is written. -/
def upsertNotification (docId : Data) (notification : Fields) (cached : Option Data) : String × Option Data :=
  match notifCache cached with
  | none => ("new", none)
  | some d =>
      match ((d.get? "items").getD (.list [])).elements with
      | none => ("new", none)
      | some notifItems =>
          match withoutDocId docId notifItems with
          | none => ("new", none)
          | some kept =>
              (if kept.length < notifItems.length then "update" else "new",
                (dumpsFields notification).map fun item =>
                  .dict (Dict.setList "items" (.list ((.dict item :: kept).take 100)) d))

/-- The key of the notifications of a user. -/
def notificationsKey (uid : String) : String := userKey uid "notifications"

/-- `_handle_notification_message`, with the document that the read from the store gives: the store after it, and the
`ws_action` of what is sent. -/
def handleNotificationMessage (F : TextFunctions) (r : Redis) (uid : String) (now : ℚ) (messageData : Object)
    (document : Option Fields) : Redis × Option String :=
  let docId := resolveNotificationDocId messageData
  if docId.truthy then
    match notificationData F docId messageData document with
    | none => (r, none)
    | some notification =>
        let (wsAction, value) := upsertNotification docId notification (get r now (notificationsKey uid))
        match value with
        | none => (r, some wsAction)
        | some value => (setex r now (notificationsKey uid) userProfileTtl value, some wsAction)
  else (r, none)

/-! ### Messages -/

/-- A message that names a notification, with the document of the store and its time. -/
structure Event where
  messageData : Object
  document : Option Fields
  time : ℚ
  docId : String
  id_eq : resolveNotificationDocId messageData = .str docId
  id_ne : docId ≠ ""

section Messages

variable (F : TextFunctions)

/-- `json.dumps` accepts the notification of a message. -/
def Event.written (e : Event) : Bool :=
  (notificationData F (.str e.docId) e.messageData e.document).any fun data => (dumpsFields data).isSome

/-- The messages that the key still has at a time: all of them, unless it expired after the last one. -/
def alive (kept : List Event) (now : ℚ) : List Event :=
  match kept.getLast? with
  | none => []
  | some last => if now ≤ last.time + userProfileTtl then kept else []

/-- The messages that were written since the key was last missing. -/
def kept (events : List Event) : List Event :=
  events.foldl (fun kept e => if e.written F then alive kept e.time ++ [e] else kept) []

/-- The messages, one after another. -/
def handleAll (r : Redis) (uid : String) (events : List Event) : Redis :=
  events.foldl (fun r e => (handleNotificationMessage F r uid e.time e.messageData e.document).1) r

/-- The items of the user's notifications cache. -/
def cachedItems (r : Redis) (uid : String) (now : ℚ) : List Data :=
  match get r now (notificationsKey uid) with
  | some (.dict d) =>
      match Object.get? d "items" with
      | some (.list items) => items
      | _ => []
  | _ => []

/-- `item.get("docId")`. -/
def docIdOf (item : Data) : Data := field (item.asDict.getD []) "docId"

end Messages

/-! ### What is cached -/

/-- A cached notification. -/
structure Item where
  docId : String
  fields : Object
  docId_eq : field fields "docId" = .str docId

/-- An item as it is cached. -/
def Item.data (item : Item) : Data := .dict item.fields

theorem docIdOf_data (item : Item) : docIdOf item.data = .str item.docId := item.docId_eq

/-- The value of the key, if it is there, is a dict with these items. -/
def Holding (items : List Item) (cached : Option Data) : Prop :=
  cached = none ∧ items = [] ∨
    ∃ d, cached = some (.dict d) ∧ Object.get? d "items" = some (.list (items.map Item.data))

section Upsert

variable {F : TextFunctions} {items : List Item} {cached : Option Data} {new : Item}

theorem withoutDocId_data (docId : String) : withoutDocId (.str docId) (items.map Item.data) =
    some ((items.filter (·.docId ≠ docId)).map Item.data) := by
  induction items with
  | nil => rfl
  | cons item items ih =>
      rw [List.map_cons, withoutDocId, ih, Item.data]
      show some (if (field item.fields "docId").same (.str docId) then _ else _) = _
      have hsame : (field item.fields "docId").same (.str docId) = decide (item.docId = docId) := by
        rw [item.docId_eq]
        rfl
      by_cases h : item.docId = docId
      · simp [hsame, h]
      · simp [hsame, h, Item.data]

/-- What one notification does to the items, if it can be written. -/
theorem upsertNotification_holding (h : Holding items cached) (docId : String) (notification : Fields) :
    ∃ d, upsertNotification (.str docId) notification cached =
      (if docId ∈ items.map Item.docId then "update" else "new",
        (dumpsFields notification).map fun item =>
          .dict (Dict.setList "items"
            (.list ((.dict item :: (items.filter (·.docId ≠ docId)).map Item.data).take 100)) d)) := by
  obtain ⟨d, hcache, hitems⟩ : ∃ d, notifCache cached = some d ∧
      ((Object.get? d "items").getD (.list [])).elements = some (items.map Item.data) := by
    rcases h with ⟨rfl, rfl⟩ | ⟨d, rfl, hitems⟩
    · exact ⟨[], rfl, rfl⟩
    · exact ⟨d, rfl, by rw [hitems]; rfl⟩
  have hlength : ((items.filter (·.docId ≠ docId)).map Item.data).length < (items.map Item.data).length ↔
      docId ∈ items.map Item.docId := by
    rw [List.length_map, List.length_map, List.length_filter_lt_length_iff_exists, List.mem_map]
    simp
  refine ⟨d, ?_⟩
  rw [upsertNotification, hcache]
  dsimp only
  rw [hitems]
  dsimp only
  rw [withoutDocId_data]
  simp only [hlength]

/-- The list that is written. -/
theorem get?_items (new : Item) (items : List Item) (d : Object) :
    Object.get? (Dict.setList "items"
      (.list ((.dict new.fields :: (items.filter (·.docId ≠ new.docId)).map Item.data).take 100)) d) "items" =
      some (.list (((new :: items.filter (·.docId ≠ new.docId)).take 100).map Item.data)) := by
  rw [Object.get?, Dict.getList_setList, if_pos rfl, List.map_take]
  rfl

/-- The ids of the items are touched. -/
theorem docIds_upsert : ((new :: items.filter (·.docId ≠ new.docId)).take 100).map Item.docId =
    touch 100 new.docId (items.map Item.docId) := by
  rw [touch, List.map_take, List.map_cons, List.filter_map]
  rfl

end Upsert

/-! ### The notification is written -/

section Written

variable {F : TextFunctions} {data : Fields} {k k' : String} {d : Data}

/-- The fields of a document that a notification is made of, but for the time, which always becomes a text. -/
def fieldsTaken : List String :=
  ["additional_info", "function_name", "functionName", "file_name", "fileName", "status", "message", "collection_id",
    "collectionId", "collection_name", "collectionName", "read", "job_id", "jobId", "file_id", "fileId", "drive_link",
    "driveLink", "batch_id", "batchId"]

/-- They are JSON values. -/
def Writable (data : Fields) : Prop := ∀ e ∈ data, e.1 ∈ fieldsTaken → e.2.toData.isSome

theorem dumpsFields_isSome (h : ∀ e ∈ data, e.2.toData.isSome) : (dumpsFields data).isSome := by
  induction data with
  | nil => rfl
  | cons e data ih =>
      obtain ⟨v, hv⟩ := Option.isSome_iff_exists.mp (h e List.mem_cons_self)
      obtain ⟨rest, hrest⟩ := Option.isSome_iff_exists.mp (ih fun e he => h e (List.mem_cons_of_mem _ he))
      rw [dumpsFields] at hrest ⊢
      rw [List.mapM_cons, hv, hrest]
      rfl

theorem getOr_isSome (h : Writable data) (hk : k ∈ fieldsTaken) {v : FieldValue} (hv : v.toData.isSome) :
    (getOr data k v).toData.isSome := by
  rw [getOr]
  cases hget : Dict.getList k data with
  | none => exact hv
  | some w => exact h _ (Dict.mem_of_getList hget) hk

theorem either_isSome (h : Writable data) (hk : k ∈ fieldsTaken) (hk' : k' ∈ fieldsTaken) :
    (either data k k' d).toData.isSome :=
  getOr_isSome h hk (getOr_isSome h hk' rfl)

theorem functionNameOf_isSome (h : Writable data) : (functionNameOf F data).toData.isSome := by
  have hname : (either data "function_name" "functionName" (.str "Router")).toData.isSome :=
    either_isSome h (by decide) (by decide)
  rw [functionNameOf]
  split
  · rfl
  · exact hname

theorem messageOf_isSome (h : Writable data) : (messageOf F data).toData.isSome := by
  rw [messageOf]
  split
  · rfl
  · exact getOr_isSome h (by decide) rfl

theorem additionalInfoFormatted_isSome {v : FieldValue} (h : v.toData.isSome) :
    (additionalInfoFormatted F v).isSome := by
  unfold additionalInfoFormatted
  split
  · cases v with
    | json v =>
        cases v with
        | str s => rfl
        | null => rfl
        | bool b => rfl
        | number x => rfl
        | list items => rfl
        | dict fields => rfl
    | time isoformat text => cases h
    | other text truth => cases h
  · rfl

/-- The first field of a notification is its id. -/
theorem transformNotification_docId {docId : Data} {notification : Fields}
    (h : transformNotification F docId data = some notification) :
    ∃ rest, notification = ("docId", .json docId) :: rest := by
  obtain ⟨formatted, -, rfl⟩ := Option.map_eq_some_iff.mp h
  exact ⟨_, rfl⟩

/-- What is made of fields that can be written can be written. -/
theorem transformNotification_isSome (h : Writable data) (docId : Data) :
    ∃ notification, transformNotification F docId data = some notification ∧ (dumpsFields notification).isSome := by
  have hinfo : (getOr data "additional_info" (.json (.str ""))).toData.isSome := getOr_isSome h (by decide) rfl
  obtain ⟨formatted, hformatted⟩ := Option.isSome_iff_exists.mp (additionalInfoFormatted_isSome hinfo)
  refine ⟨_, by rw [transformNotification, hformatted]; rfl, dumpsFields_isSome ?_⟩
  simp only [List.forall_mem_cons, List.not_mem_nil, false_implies, implies_true, and_true]
  have hname : ∀ k k', k ∈ fieldsTaken → k' ∈ fieldsTaken → (either data k k').toData.isSome :=
    fun k k' hk hk' => either_isSome h hk hk'
  exact ⟨rfl, messageOf_isSome h, hname _ _ (by decide) (by decide), hname _ _ (by decide) (by decide),
    hname _ _ (by decide) (by decide), getOr_isSome h (by decide) rfl, getOr_isSome h (by decide) rfl,
    hname _ _ (by decide) (by decide), hname _ _ (by decide) (by decide), functionNameOf_isSome h, rfl, hinfo, rfl,
    rfl, hname _ _ (by decide) (by decide), hname _ _ (by decide) (by decide)⟩

theorem writable_flatten (messageData : Object) : Writable (flatten messageData) := by
  intro e he _
  obtain ⟨e', -, rfl⟩ := List.mem_map.mp he
  rfl

/-- There is always a notification, and its first field is the id. -/
theorem notificationData_eq (F : TextFunctions) (e : Event) :
    ∃ rest, notificationData F (.str e.docId) e.messageData e.document =
      some (("docId", .json (.str e.docId)) :: rest) := by
  rw [notificationData]
  cases hstore : e.document.bind fun rawDoc =>
      if rawDoc = [] then none else transformNotification F (.str e.docId) rawDoc with
  | none =>
      obtain ⟨notification, hnotification, -⟩ :=
        transformNotification_isSome (F := F) (writable_flatten e.messageData) (.str e.docId)
      obtain ⟨rest, rfl⟩ := transformNotification_docId hnotification
      exact ⟨rest, hnotification⟩
  | some notification =>
      obtain ⟨rawDoc, -, hraw⟩ := Option.bind_eq_some_iff.mp hstore
      split at hraw
      · cases hraw
      · obtain ⟨rest, rfl⟩ := transformNotification_docId hraw
        exact ⟨rest, rfl⟩

/-- **A message is written** if no document is read, or only JSON values are taken over from it. -/
theorem written_of_writable (F : TextFunctions) (e : Event) (h : ∀ rawDoc ∈ e.document, Writable rawDoc) :
    e.written F = true := by
  have hflat := transformNotification_isSome (F := F) (writable_flatten e.messageData) (.str e.docId)
  have hsome : ∃ notification, notificationData F (.str e.docId) e.messageData e.document = some notification ∧
      (dumpsFields notification).isSome := by
    rw [notificationData]
    cases hdocument : e.document with
    | none => exact hflat
    | some rawDoc =>
        by_cases hempty : rawDoc = []
        · subst hempty
          exact hflat
        · obtain ⟨notification, hnotification, hwritten⟩ :=
            transformNotification_isSome (F := F) (h rawDoc hdocument) (.str e.docId)
          refine ⟨notification, ?_, hwritten⟩
          rw [Option.bind_some, if_neg hempty, hnotification]
          rfl
  obtain ⟨notification, hnotification, hwritten⟩ := hsome
  rw [Event.written, hnotification]
  exact hwritten

/-- The item of a notification that is written. -/
theorem exists_item {docId : String} {rest : Fields}
    (h : (dumpsFields (("docId", .json (.str docId)) :: rest)).isSome = true) :
    ∃ new : Item, new.docId = docId ∧ dumpsFields (("docId", .json (.str docId)) :: rest) = some new.fields := by
  obtain ⟨object, hobject⟩ := Option.isSome_iff_exists.mp h
  rw [dumpsFields, List.mapM_cons] at hobject
  obtain ⟨first, hfirst, hrest⟩ := Option.bind_eq_some_iff.mp hobject
  obtain ⟨fields, hfields, hnew⟩ := Option.bind_eq_some_iff.mp hrest
  cases hfirst
  cases hnew
  refine ⟨⟨docId, ("docId", .str docId) :: fields, rfl⟩, rfl, ?_⟩
  rw [dumpsFields, List.mapM_cons, hfields]
  rfl

end Written

/-! ### Runs -/

section Runs

variable {F : TextFunctions} {r : Redis} {uid : String} {events : List Event} {e : Event} {now : ℚ}

/-- The ids of messages. -/
abbrev idsOf (events : List Event) : List String := events.map Event.docId

/-- What the key holds after messages. -/
def Holds (r : Redis) (uid : String) (kept : List Event) : Prop :=
  match kept.getLast? with
  | none => r.get? (notificationsKey uid) = none
  | some last => ∃ (d : Object) (items : List Item),
      r.get? (notificationsKey uid) = some ⟨.dict d, last.time + userProfileTtl⟩ ∧
      Object.get? d "items" = some (.list (items.map Item.data)) ∧
      items.map Item.docId = (recent (idsOf kept)).take 100

/-- What a read finds: the window of the messages that the key still has. -/
theorem Holds.holding {kept : List Event} (h : Holds r uid kept) (now : ℚ) :
    ∃ items, Holding items (get r now (notificationsKey uid)) ∧
      items.map Item.docId = (recent (idsOf (alive kept now))).take 100 := by
  rw [Holds] at h
  rw [alive]
  cases hlast : kept.getLast? with
  | none =>
      rw [hlast] at h
      exact ⟨[], .inl ⟨by rw [get, h], rfl⟩, rfl⟩
  | some last =>
      rw [hlast] at h
      obtain ⟨d, items, hentry, hitems, hids⟩ := h
      dsimp only
      split_ifs with hin
      · exact ⟨items, .inr ⟨d, by rw [get, hentry]; exact if_pos hin, hitems⟩, hids⟩
      · exact ⟨[], .inl ⟨by rw [get, hentry]; exact if_neg hin, rfl⟩, rfl⟩

/-- One message. -/
theorem Holds.handle {kept : List Event} (h : Holds r uid kept) (F : TextFunctions) (e : Event) :
    ∃ r', handleNotificationMessage F r uid e.time e.messageData e.document =
        (r', some (if e.docId ∈ (recent (idsOf (alive kept e.time))).take 100 then "update" else "new")) ∧
      Holds r' uid (if e.written F then alive kept e.time ++ [e] else kept) := by
  obtain ⟨items, hholding, hids⟩ := h.holding e.time
  obtain ⟨rest, hnotification⟩ := notificationData_eq F e
  obtain ⟨d, hupsert⟩ := upsertNotification_holding hholding e.docId (("docId", .json (.str e.docId)) :: rest)
  have htruthy : (Data.str e.docId).truthy = true := by
    rw [Data.truthy]
    exact decide_eq_true e.id_ne
  have hhandle : handleNotificationMessage F r uid e.time e.messageData e.document =
      let result := upsertNotification (.str e.docId) (("docId", .json (.str e.docId)) :: rest)
        (get r e.time (notificationsKey uid))
      (result.2.elim r (setex r e.time (notificationsKey uid) userProfileTtl), some result.1) := by
    rw [handleNotificationMessage, e.id_eq]
    dsimp only
    rw [if_pos htruthy, hnotification]
    dsimp only
    cases (upsertNotification (.str e.docId) (("docId", .json (.str e.docId)) :: rest)
      (get r e.time (notificationsKey uid))).2 <;> rfl
  have hwritten : e.written F = (dumpsFields (("docId", .json (.str e.docId)) :: rest)).isSome := by
    rw [Event.written, hnotification]
    rfl
  rw [hids] at hupsert
  rw [hhandle, hupsert, hwritten]
  cases hdumps : (dumpsFields (("docId", .json (.str e.docId)) :: rest)).isSome with
  | false =>
      rw [Option.isSome_eq_false_iff, Option.isNone_iff_eq_none] at hdumps
      rw [hdumps]
      exact ⟨r, rfl, h⟩
  | true =>
      obtain ⟨new, hid, hfields⟩ := exists_item hdumps
      rw [hfields, ← hid]
      refine ⟨_, rfl, ?_⟩
      rw [if_pos rfl, Holds, List.getLast?_concat]
      refine ⟨_, _, Dict.get?_set_self .., get?_items new items d, ?_⟩
      rw [docIds_upsert, hids, hid, touch_take_recent, idsOf, idsOf, List.map_append]
      rfl

/-- All messages. -/
theorem holds_handleAll (hempty : r.get? (notificationsKey uid) = none) (events : List Event) :
    Holds (handleAll F r uid events) uid (kept F events) := by
  induction events using List.reverseRecOn with
  | nil => exact hempty
  | append_singleton events e ih =>
      obtain ⟨r', hhandle, hholds⟩ := ih.handle F e
      rw [handleAll, kept, List.foldl_concat, List.foldl_concat]
      rw [handleAll] at hhandle
      rw [hhandle]
      exact hholds

/-- The ids of the cached items. -/
theorem map_docIdOf_cachedItems {items : List Item} (h : Holding items (get r now (notificationsKey uid))) :
    (cachedItems r uid now).map docIdOf = (items.map Item.docId).map Data.str := by
  rw [cachedItems]
  rcases h with ⟨hnone, rfl⟩ | ⟨d, hsome, hitems⟩
  · rw [hnone]
    rfl
  · rw [hsome]
    dsimp only
    rw [hitems, List.map_map, List.map_map]
    exact List.map_congr_left fun item _ => docIdOf_data item

/-- **The cached items are the window of the messages that were written since the key was last missing**: the 100
notifications of their last messages, newest first; and the action of one more message, whether it is written or not,
says whether its notification is in it. -/
theorem notification_window (F : TextFunctions) (uid : String) (hempty : r.get? (notificationsKey uid) = none)
    (events : List Event) :
    (∀ now, ∃ window : List String,
      (cachedItems (handleAll F r uid events) uid now).map docIdOf = window.map Data.str ∧
        IsWindow 100 (idsOf (alive (kept F events) now)) window) ∧
      ∀ e : Event, ∃ wsAction,
        (handleNotificationMessage F (handleAll F r uid events) uid e.time e.messageData e.document).2 = some wsAction ∧
          (wsAction = "update" ↔
            Data.str e.docId ∈ (cachedItems (handleAll F r uid events) uid e.time).map docIdOf) := by
  have hholds := holds_handleAll (F := F) hempty events
  constructor
  · intro now
    obtain ⟨items, hholding, hids⟩ := hholds.holding now
    refine ⟨_, map_docIdOf_cachedItems hholding, ?_⟩
    rw [hids]
    exact isWindow_take_recent
  · intro e
    obtain ⟨items, hholding, hids⟩ := hholds.holding e.time
    obtain ⟨r', hhandle, -⟩ := hholds.handle F e
    refine ⟨_, congrArg Prod.snd hhandle, ?_⟩
    rw [map_docIdOf_cachedItems hholding, hids, List.mem_map_of_injective fun a b => Data.str.inj]
    split_ifs with hmem
    · exact iff_of_true rfl hmem
    · exact iff_of_false (by decide) hmem

end Runs

section Examples

/-- Text functions for messages without additional information. -/
def plainText : TextFunctions := ⟨Text.lower, fun _ => "", fun _ => none, fun _ => ""⟩

/-- A message of the router, whose document cannot be read. -/
def routerMessage (driveId : String) (h : driveId ≠ "") (time : ℚ) : Event where
  messageData := [("drive_id", .str driveId)]
  document := none
  time := time
  docId := driveId
  id_eq := by
    rw [resolveNotificationDocId]
    simp [field, Object.get?, Dict.getList, Data.asDict, Data.or, Data.truthy, h]
  id_ne := h

@[simp] theorem time_routerMessage (driveId : String) (h : driveId ≠ "") (time : ℚ) :
    (routerMessage driveId h time).time = time := rfl

/-- Messages whose documents cannot be read are written. -/
@[simp] theorem written_routerMessage (F : TextFunctions) (driveId : String) (h : driveId ≠ "") (time : ℚ) :
    (routerMessage driveId h time).written F = true :=
  written_of_writable F _ fun _ hdocument => nomatch hdocument

/-- Three messages within a day. -/
def threeMessages : List Event :=
  [routerMessage "a" (by decide) 0, routerMessage "b" (by decide) 10, routerMessage "a" (by decide) 20]

/-- The notification of the last message is the first of the window, and one more message of the other one, half a day
later, is an update. -/
theorem notification_window_twice :
    (cachedItems (handleAll plainText Dict.empty "u" threeMessages) "u" 30).map docIdOf = [.str "a", .str "b"] ∧
      (handleNotificationMessage plainText (handleAll plainText Dict.empty "u" threeMessages) "u" 43200
        (routerMessage "b" (by decide) 43200).messageData none).2 = some "update" := by
  obtain ⟨hwindow, haction⟩ := @notification_window Dict.empty plainText "u" rfl threeMessages
  have hkept : kept plainText threeMessages = threeMessages := by
    norm_num [kept, threeMessages, alive, userProfileTtl]
  have hcached (now : ℚ) (hnow : now ≤ 20 + userProfileTtl) :
      (cachedItems (handleAll plainText Dict.empty "u" threeMessages) "u" now).map docIdOf = [.str "a", .str "b"] := by
    obtain ⟨window, hids, hiswindow⟩ := hwindow now
    have halive : alive (kept plainText threeMessages) now = threeMessages := by
      rw [hkept]
      exact if_pos hnow
    rw [halive] at hiswindow
    rw [hids, hiswindow.eq isWindow_take_recent]
    rfl
  refine ⟨hcached 30 (by norm_num [userProfileTtl]), ?_⟩
  obtain ⟨wsAction, hsent, hiff⟩ := haction (routerMessage "b" (by decide) 43200)
  have hupdate : wsAction = "update" := by
    rw [hiff]
    show _ ∈ (cachedItems (handleAll plainText Dict.empty "u" threeMessages) "u" 43200).map docIdOf
    rw [hcached 43200 (by norm_num [userProfileTtl])]
    exact List.mem_cons_of_mem _ (List.mem_singleton_self _)
  rw [← hupdate]
  exact hsent

/-- Two messages, more than a day apart. -/
def dayApart : List Event := [routerMessage "a" (by decide) 0, routerMessage "b" (by decide) 100000]

/-- A message whose document has the time of its job in the place of the job's id. -/
def timedJob : Event where
  messageData := [("drive_id", .str "b")]
  document := some [("job_id", .time "2026-03-05T00:00:00+00:00" "2026-03-05 00:00:00+00:00")]
  time := 10
  docId := "b"
  id_eq := rfl
  id_ne := by decide

/-- The cached items at the time of the last of some messages are the window of all of them. -/
def ShowsAll (events : List Event) (now : ℚ) : Prop :=
  ∃ window : List String,
    (cachedItems (handleAll plainText Dict.empty "u" events) "u" now).map docIdOf = window.map Data.str ∧
      IsWindow 100 (idsOf events) window

/-- Messages of two notifications do not both show if only one of them is kept. -/
theorem not_showsAll {events : List Event} {now : ℚ} {e : Event} (hkept : kept plainText events = [e])
    (htwo : (idsOf events).dedup.length = 2) : ¬ShowsAll events now := by
  intro hshows
  obtain ⟨window, hids, hwindow⟩ := hshows
  have hholds : Holds (handleAll plainText Dict.empty "u" events) "u" (kept plainText events) :=
    holds_handleAll rfl events
  obtain ⟨items, hholding, hitems⟩ := hholds.holding now
  have hone : ((recent (idsOf (alive (kept plainText events) now))).take 100).length ≤ 1 := by
    rw [hkept, alive, List.getLast?_singleton]
    dsimp only
    split
    · rfl
    · exact Nat.zero_le 1
  rw [map_docIdOf_cachedItems hholding, hitems] at hids
  have hlength := congrArg List.length hids
  rw [List.length_map, List.length_map, hwindow.length_eq, htwo] at hlength
  rw [hlength] at hone
  exact absurd hone (by decide)

/-- A day after the last message the key has expired, and the next message begins a new list; and a notification with a
value that is not JSON is not added to the list. -/
theorem notifications_missed : ¬ShowsAll dayApart 100000 ∧
    ¬ShowsAll [routerMessage "a" (by decide) 0, timedJob] 10 := by
  constructor
  · refine @not_showsAll _ _ (routerMessage "b" (by decide) 100000) ?_ (by decide)
    norm_num [kept, dayApart, alive, userProfileTtl]
  · refine @not_showsAll _ _ (routerMessage "a" (by decide) 0) ?_ (by decide)
    have hnot : timedJob.written plainText = false := rfl
    simp [kept, alive, hnot]

end Examples

end Pinnokio.Realtime.UserCache.Notifications
