import Mathlib.Tactic.NormNum
import Pinnokio.Lib.Runs
import Pinnokio.Realtime.UserCache

/-!
# Direct messages

A direct message is added to the cache of its user, or removed from it, and sent to the user if connected.  The handler
writes the cache itself, and sending writes the same key once more.  Both give `_update_cache` a payload that has the
message under `data`, where neither the item to add nor the id to remove is looked for.  The key has a lifetime of a day
from the last write.

* `Holding.add`, `Holding.remove` — what one write does: the whole payload is added, and everything is removed;
* `holds_live_iff` — **the cache holds exactly the live messages** at every point of a sequence exactly when the user is
  not connected at a new message, which is not one of the last 99 live ones, no message but the last live one is
  removed, and none but the one of the event is live when the key has expired.
-/

namespace Pinnokio.Realtime.UserCache.DirectMessages

open Pinnokio.Runs

/-! ### The handler -/

/-- `raw.get(k, raw.get(k', default))`. -/
def either (raw : Object) (k k' default : String) : Data :=
  (raw.get? k).getD ((raw.get? k').getD (.str default))

/-- The action of a message. -/
def actionOf (messageData : Object) : Data := (messageData.get? "action_type").getD (.str "new")

/-- `_transform_direct_message`; `none` is the error of data that are not a dict. -/
def transformDirectMessage (messageData : Object) : Option Object :=
  if (actionOf messageData).isOneOf ["remove"] then
    some [("docId", either messageData "message_id" "docId" "")]
  else
    match (messageData.get? "data").getD (.dict messageData) with
    | .dict raw =>
        some [("docId", (messageData.get? "message_id").getD (.str "")),
          ("message", either raw "message" "status" ""),
          ("fileName", either raw "file_name" "fileName" ""),
          ("collectionId", either raw "collection_id" "collectionId" ""),
          ("collectionName", either raw "collection_name" "collectionName" ""),
          ("status", (Object.get? raw "status").getD (.str "")),
          ("jobId", either raw "job_id" "jobId" ""),
          ("fileId", either raw "file_id" "fileId" ""),
          ("functionName", either raw "function_name" "functionName" "Chat"),
          ("timestamp", (Object.get? raw "timestamp").getD ((messageData.get? "timestamp").getD (.str ""))),
          ("chatMode", either raw "chat_mode" "chatMode" ""),
          ("threadKey", either raw "thread_key" "threadKey" ""),
          ("driveLink", either raw "drive_link" "driveLink" ""),
          ("batchId", either raw "batch_id" "batchId" "")]
    | _ => none

/-- The key of the messages of a user. -/
def messagesKey (uid : String) : String := userKey uid "messages"

/-- `_handle_direct_message_message`. -/
def handleDirectMessage (r : Redis) (now : ℚ) (uid : String) (messageData : Object) (connected : Bool) : Redis :=
  match transformDirectMessage messageData with
  | none => r
  | some data =>
      let payload : Object := [("action", actionOf messageData), ("data", .dict data)]
      let r := updateCache r now (messagesKey uid) payload userProfileTtl
      if connected then publishUserEvent r now uid payload "messages" else r

/-! ### Events -/

/-- A direct message, its time, and whether its user is connected when it arrives. -/
structure Event where
  time : ℚ
  messageData : Object
  removes : Bool
  messageId : String
  connected : Bool
  action_eq : actionOf messageData = .str (if removes then "remove" else "new")
  id_eq : messageData.get? "message_id" = some (.str messageId)
  data_dict : ∀ v, messageData.get? "data" = some v → v.asDict.isSome

/-- The cache, the time of the last event, and the messages that are live, the last one first. -/
structure State where
  redis : Redis
  now : ℚ
  live : List String

/-- No message yet. -/
def State.initial : State := ⟨∅, 0, []⟩

/-- The live messages after an event. -/
def record (live : List String) (ev : Event) : List String :=
  if ev.removes then live.erase ev.messageId else ev.messageId :: live.erase ev.messageId

/-- One event. -/
def step (uid : String) (s : State) (ev : Event) : State where
  redis := handleDirectMessage s.redis ev.time uid ev.messageData ev.connected
  now := ev.time
  live := record s.live ev

/-- The items of the user's messages cache. -/
def cachedItems (r : Redis) (now : ℚ) (uid : String) : List Data :=
  match get r now (messagesKey uid) with
  | some (.dict d) =>
      match Object.get? d "items" with
      | some (.list items) => items
      | _ => []
  | _ => []

/-- The message of an item: its own `docId`, or that of the data in it. -/
def docIdOf : Data → Data
  | .dict d => (field d "docId").or (field ((field d "data").asDict.getD []) "docId")
  | _ => .null

/-- An item is that of a message. -/
def isOf (docId : String) (item : Data) : Bool := (docIdOf item).same (.str docId)

/-- **The cache holds exactly the live messages**, the last 100 if there are more, at the time of the last event. -/
structure HoldsLive (uid : String) (s : State) : Prop where
  once : ∀ docId ∈ s.live.take 100, (cachedItems s.redis s.now uid).countP (isOf docId) = 1
  only : ∀ item ∈ cachedItems s.redis s.now uid, ∃ docId ∈ s.live.take 100, docIdOf item = .str docId

/-- The event comes while the key still lives that the last one has written. -/
def InTime (s : State) (ev : Event) : Prop := ev.time ≤ s.now + userProfileTtl

instance (s : State) (ev : Event) : Decidable (InTime s ev) := inferInstanceAs (Decidable (_ ≤ _))

/-- A message is only removed when no other one is live.  At a new message the user is not connected; it is not one of
the last 99 that are live, or no other one is live if the key has expired. -/
def Harmless (s : State) (ev : Event) : Prop :=
  if ev.removes then ∀ docId ∈ s.live, docId = ev.messageId
  else ev.connected = false ∧
    if InTime s ev then ev.messageId ∉ s.live.take 99 else ∀ docId ∈ s.live, docId = ev.messageId

instance (s : State) (ev : Event) : Decidable (Harmless s ev) := by
  unfold Harmless
  infer_instance

/-! ### What one write does -/

section Writes

variable {uid : String} {r : Redis} {now t : ℚ} {items : List Data} {data : Object}

/-- The cache can be edited, and has these items. -/
def Holding (uid : String) (r : Redis) (now : ℚ) (items : List Data) : Prop :=
  ∃ d, (get r now (messagesKey uid)).getD (.dict []) = .dict d ∧ (Object.get? d "items").getD (.list []) = .list items

/-- The cache was written at a time, with these items. -/
def WrittenAt (uid : String) (r : Redis) (now : ℚ) (items : List Data) : Prop :=
  ∃ d, r.get? (messagesKey uid) = some ⟨.dict d, now + userProfileTtl⟩ ∧
    (Object.get? d "items").getD (.list []) = .list items

theorem Holding.cachedItems (h : Holding uid r now items) : cachedItems r now uid = items := by
  obtain ⟨d, hcached, hitems⟩ := h
  rw [DirectMessages.cachedItems]
  cases hget : get r now (messagesKey uid) with
  | none =>
      rw [hget] at hcached
      cases hcached
      exact Data.list.inj hitems
  | some v =>
      rw [hget, Option.getD_some] at hcached
      subst hcached
      dsimp only
      cases hfield : Object.get? d "items" with
      | none =>
          rw [hfield] at hitems
          exact Data.list.inj hitems
      | some v =>
          rw [hfield, Option.getD_some] at hitems
          rw [hitems]

/-- What was written is there until the key expires. -/
theorem WrittenAt.holding (h : WrittenAt uid r now items) (t : ℚ) :
    Holding uid r t (if t ≤ now + userProfileTtl then items else []) := by
  obtain ⟨d, hget, hitems⟩ := h
  rw [Holding, get, hget]
  dsimp only
  split
  · exact ⟨d, rfl, hitems⟩
  · exact ⟨[], rfl, rfl⟩

/-- It is there when it is written. -/
theorem WrittenAt.now_holding (h : WrittenAt uid r now items) : Holding uid r now items := by
  have hle : now ≤ now + userProfileTtl := by norm_num
  have hholding := h.holding now
  rwa [if_pos hle] at hholding

/-- An edit of the items. -/
theorem Holding.edit (h : Holding uid r now items) {payload : Object} {items' : List Data}
    (hmode : modeOf payload ≠ .replace)
    (hedit : editItems (modeOf payload) payload (.list items) = some (.list items')) :
    WrittenAt uid (updateCache r now (messagesKey uid) payload userProfileTtl) now items' := by
  obtain ⟨d, hcached, hitems⟩ := h
  have hnew : editCache payload ((get r now (messagesKey uid)).getD (.dict [])) =
      some (.dict (Dict.setList "items" (.list items') d)) := by
    unfold editCache
    split
    · next h => exact absurd h hmode
    · rw [hcached]
      dsimp only
      rw [hitems, hedit, Option.map_some]
  refine ⟨Dict.setList "items" (.list items') d, ?_, ?_⟩
  · rw [updateCache_of_some hnew, setex, Dict.get?_set_self]
  · rw [Object.get?, Dict.getList_setList, if_pos rfl, Option.getD_some]

/-- The payload of a message. -/
def payloadOf (action : String) (data : Object) : Object := [("action", .str action), ("data", .dict data)]

/-- **A new message**: its whole payload becomes an item. -/
theorem Holding.add (h : Holding uid r now items) (data : Object) :
    WrittenAt uid (updateCache r now (messagesKey uid) (payloadOf "new" data) userProfileTtl) now
      ((.dict (payloadOf "new" data) :: items).take 100) := by
  have hmode : modeOf (payloadOf "new" data) = .add := rfl
  refine h.edit ?_ ?_
  · rw [hmode]
    exact Mode.noConfusion
  · rw [hmode]
    rfl

/-- An item without an id of its own. -/
def Unnamed (item : Data) : Prop :=
  ∃ d, item = .dict d ∧ Object.get? d "id" = none ∧ Object.get? d "docId" = none

theorem unnamed_payload (action : String) (data : Object) : Unnamed (.dict (payloadOf action data)) :=
  ⟨_, rfl, rfl, rfl⟩

theorem withoutId_null {items : List Data} (h : ∀ item ∈ items, Unnamed item) : withoutId .null items = some [] := by
  induction items with
  | nil => rfl
  | cons item items ih =>
      obtain ⟨d, rfl, hid, -⟩ := h item List.mem_cons_self
      have hcarries : carries .null d = true := by
        have hnull : field d "id" = .null := by rw [field, hid, Option.getD_none]
        rw [carries, hnull]
        rfl
      rw [withoutId, ih fun item hitem => h item (List.mem_cons_of_mem _ hitem)]
      simp only [Data.asDict, hcarries, if_true]

/-- **A removal**: the id is looked for where the payload does not have it, and every item without an id goes. -/
theorem Holding.remove (h : Holding uid r now items) (data : Object) (hitems : ∀ item ∈ items, Unnamed item) :
    WrittenAt uid (updateCache r now (messagesKey uid) (payloadOf "remove" data) userProfileTtl) now [] := by
  have hmode : modeOf (payloadOf "remove" data) = .remove := rfl
  have hid : itemId (payloadOf "remove" data) = .null := rfl
  refine h.edit ?_ ?_
  · rw [hmode]
    exact Mode.noConfusion
  · rw [hmode]
    simp only [editItems, Data.elements, Option.bind_some, hid, withoutId_null hitems, Option.map_some]

end Writes

/-! ### Events, one after another -/

section Events

variable {uid : String} {s : State} {ev : Event}

/-- What a new message is sent with. -/
theorem transform_new (h : ev.removes = false) :
    ∃ data, transformDirectMessage ev.messageData = some data ∧
      docIdOf (.dict (payloadOf "new" data)) = .str ev.messageId := by
  have haction : (actionOf ev.messageData).isOneOf ["remove"] = false := by
    rw [ev.action_eq, h]
    rfl
  obtain ⟨raw, hraw⟩ : ∃ raw, (ev.messageData.get? "data").getD (.dict ev.messageData) = .dict raw := by
    cases hdata : ev.messageData.get? "data" with
    | none => exact ⟨ev.messageData, rfl⟩
    | some v =>
        have hdict := ev.data_dict v hdata
        cases v with
        | dict raw => exact ⟨raw, rfl⟩
        | null | bool b | number x | str s | list items => cases hdict
  unfold transformDirectMessage
  rw [haction, hraw, ev.id_eq]
  exact ⟨_, rfl, rfl⟩

theorem transform_remove (h : ev.removes = true) :
    ∃ data, transformDirectMessage ev.messageData = some data := by
  have haction : (actionOf ev.messageData).isOneOf ["remove"] = true := by
    rw [ev.action_eq, h]
    rfl
  unfold transformDirectMessage
  rw [haction]
  exact ⟨_, rfl⟩

/-- What the handler does with the data of an event. -/
theorem step_redis {data : Object} (htransform : transformDirectMessage ev.messageData = some data) :
    (step uid s ev).redis =
      let payload := payloadOf (if ev.removes then "remove" else "new") data
      let r := updateCache s.redis ev.time (messagesKey uid) payload userProfileTtl
      if ev.connected then updateCache r ev.time (messagesKey uid) payload userProfileTtl else r := by
  simp only [step, handleDirectMessage, htransform, ev.action_eq]
  rfl

/-- The cache, last written at the last event, has one item for each of the last 100 live messages, in their order. -/
structure Mirrors (uid : String) (s : State) (items : List Data) : Prop where
  written : s.redis.get? (messagesKey uid) = none ∧ items = [] ∨ WrittenAt uid s.redis s.now items
  unnamed : ∀ item ∈ items, Unnamed item
  ids : items.map docIdOf = (s.live.take 100).map Data.str
  nodup : s.live.Nodup

/-- The items that an event still finds. -/
def remaining (s : State) (ev : Event) (items : List Data) : List Data := if InTime s ev then items else []

theorem Mirrors.holding {items : List Data} (h : Mirrors uid s items) (ev : Event) :
    Holding uid s.redis ev.time (remaining s ev items) := by
  obtain ⟨hnone, rfl⟩ | hwritten := h.written
  · rw [Holding, get, hnone, remaining, ite_self]
    exact ⟨[], rfl, rfl⟩
  · exact hwritten.holding ev.time

theorem Mirrors.unnamed_remaining {items : List Data} (h : Mirrors uid s items) (ev : Event) :
    ∀ item ∈ remaining s ev items, Unnamed item := by
  rw [remaining]
  split
  · exact h.unnamed
  · exact fun item hitem => absurd hitem List.not_mem_nil

theorem Mirrors.cachedItems {items : List Data} (h : Mirrors uid s items) : cachedItems s.redis s.now uid = items := by
  obtain ⟨hnone, rfl⟩ | hwritten := h.written
  · rw [DirectMessages.cachedItems, get, hnone]
  · exact hwritten.now_holding.cachedItems

theorem isOf_iff {docId docId' : String} {item : Data} (h : docIdOf item = .str docId') :
    isOf docId item = true ↔ docId' = docId := by
  rw [isOf, h, Data.same, decide_eq_true_eq]

/-- The number of items of a message, when the items are those of the live messages. -/
theorem countP_isOf {items : List Data} {ids : List String} (h : items.map docIdOf = ids.map Data.str)
    (docId : String) : items.countP (isOf docId) = ids.count docId := by
  induction items generalizing ids with
  | nil =>
      cases ids with
      | nil => rfl
      | cons i ids => cases h
  | cons item items ih =>
      cases ids with
      | nil => cases h
      | cons i ids =>
          rw [List.map_cons, List.map_cons, List.cons.injEq] at h
          rw [List.countP_cons, List.count_cons, ih h.2]
          congr 1
          by_cases hi : i = docId
          · rw [if_pos ((isOf_iff h.1).mpr hi), if_pos (by simpa using hi)]
          · rw [if_neg fun hof => hi ((isOf_iff h.1).mp hof), if_neg (by simpa using hi)]

/-- Then the cache holds exactly the live messages. -/
theorem Mirrors.holdsLive {items : List Data} (h : Mirrors uid s items) : HoldsLive uid s := by
  have hitems := h.cachedItems
  constructor
  · intro docId hlive
    rw [hitems, countP_isOf h.ids]
    exact List.count_eq_one_of_mem (h.nodup.sublist (List.take_sublist ..)) hlive
  · intro item hitem
    rw [hitems] at hitem
    have hmem : docIdOf item ∈ (s.live.take 100).map Data.str := h.ids ▸ List.mem_map_of_mem hitem
    obtain ⟨docId, hlive, heq⟩ := List.mem_map.mp hmem
    exact ⟨docId, hlive, heq.symm⟩

/-- The live messages that an event still finds cached, but for the last of a hundred. -/
def found (s : State) (ev : Event) : List String := if InTime s ev then s.live.take 99 else []

/-- All but the last of a hundred items. -/
theorem Mirrors.ids_found {items : List Data} (h : Mirrors uid s items) (ev : Event) :
    ((remaining s ev items).take 99).map docIdOf = (found s ev).map Data.str := by
  have hmin : min 99 100 = 99 := rfl
  rw [remaining, found]
  split
  · rw [List.map_take, h.ids, ← List.map_take, List.take_take, hmin]
  · rfl

/-- A message that is not one of the first ones of a list can be taken out behind them. -/
theorem take_erase {n : ℕ} {live : List String} {docId : String} (h : docId ∉ live.take n) :
    (live.erase docId).take n = live.take n := by
  induction live generalizing n with
  | nil => rfl
  | cons x live ih =>
      cases n with
      | zero => rfl
      | succ n =>
          rw [List.take_succ_cons, List.mem_cons, not_or] at h
          rw [List.erase_cons_tail (by simpa using Ne.symm h.1), List.take_succ_cons, List.take_succ_cons, ih h.2]

/-- No other message is left after one is taken out of those that are all the same. -/
theorem erase_eq_nil_iff {live : List String} (hnodup : live.Nodup) (docId : String) :
    live.erase docId = [] ↔ ∀ other ∈ live, other = docId := by
  rw [List.eq_nil_iff_forall_not_mem]
  refine forall_congr' fun other => ?_
  rw [hnodup.mem_erase_iff, not_and]
  exact not_imp_not

/-- **A new message of a user that is not connected.** -/
theorem step_new_offline (ev : Event) {items : List Data} (h : Mirrors uid s items) (hnew : ev.removes = false)
    (hoffline : ev.connected = false) :
    ∃ data, docIdOf (.dict (payloadOf "new" data)) = .str ev.messageId ∧
      WrittenAt uid (step uid s ev).redis ev.time
        (.dict (payloadOf "new" data) :: (remaining s ev items).take 99) := by
  obtain ⟨data, htransform, hid⟩ := transform_new hnew
  refine ⟨data, hid, ?_⟩
  rw [step_redis htransform, hnew, hoffline]
  exact (h.holding ev).add data

/-- **A new message of a user that is connected** becomes two items. -/
theorem step_new_online (ev : Event) {items : List Data} (h : Mirrors uid s items) (hnew : ev.removes = false)
    (honline : ev.connected = true) :
    ∃ data, docIdOf (.dict (payloadOf "new" data)) = .str ev.messageId ∧ ∃ rest,
      WrittenAt uid (step uid s ev).redis ev.time
        (.dict (payloadOf "new" data) :: .dict (payloadOf "new" data) :: rest) := by
  obtain ⟨data, htransform, hid⟩ := transform_new hnew
  refine ⟨data, hid, (remaining s ev items).take 98, ?_⟩
  rw [step_redis htransform, hnew, honline]
  have hadded := ((h.holding ev).add data).now_holding.add data
  rwa [List.take_succ_cons, List.take_succ_cons, List.take_succ_cons, List.take_take] at hadded

/-- **A removal** leaves no item. -/
theorem step_remove (ev : Event) {items : List Data} (h : Mirrors uid s items) (hremove : ev.removes = true) :
    WrittenAt uid (step uid s ev).redis ev.time [] := by
  obtain ⟨data, htransform⟩ := transform_remove hremove
  have hremoved := (h.holding ev).remove data (h.unnamed_remaining ev)
  rw [step_redis htransform, hremove]
  cases ev.connected with
  | false => exact hremoved
  | true => exact hremoved.now_holding.remove data fun item hitem => absurd hitem List.not_mem_nil

/-- A harmless event keeps the cache in line with the live messages. -/
theorem mirrors_step (ev : Event) {items : List Data} (h : Mirrors uid s items) (hev : Harmless s ev) :
    ∃ items', Mirrors uid (step uid s ev) items' := by
  unfold Harmless at hev
  cases hremoves : ev.removes with
  | true =>
      rw [hremoves, if_pos rfl] at hev
      have hlive : (step uid s ev).live = [] := by
        rw [step, record, hremoves, if_pos rfl]
        exact (erase_eq_nil_iff h.nodup _).mpr hev
      refine ⟨[], Or.inr (step_remove ev h hremoves), fun item hitem => absurd hitem List.not_mem_nil, ?_, ?_⟩
      · rw [hlive]
        rfl
      · rw [hlive]
        exact List.nodup_nil
  | false =>
      rw [hremoves, if_neg Bool.false_ne_true] at hev
      obtain ⟨hoffline, hnew⟩ := hev
      have hlive : (step uid s ev).live = ev.messageId :: s.live.erase ev.messageId := by
        simp [step, record, hremoves]
      have hrest : (s.live.erase ev.messageId).take 99 = found s ev := by
        rw [found]
        split at hnew
        · next hin => rw [if_pos hin, take_erase hnew]
        · next hexpired => rw [if_neg hexpired, (erase_eq_nil_iff h.nodup _).mpr hnew, List.take_nil]
      obtain ⟨data, hid, hwritten⟩ := step_new_offline ev h hremoves hoffline
      refine ⟨_, Or.inr hwritten, ?_, ?_, ?_⟩
      · intro item hitem
        obtain rfl | hitem := List.mem_cons.mp hitem
        · exact unnamed_payload "new" data
        · exact h.unnamed_remaining ev item (List.mem_of_mem_take hitem)
      · rw [hlive, List.take_succ_cons, hrest, List.map_cons, List.map_cons, hid, h.ids_found]
      · rw [hlive]
        exact List.nodup_cons.mpr ⟨h.nodup.not_mem_erase, h.nodup.erase _⟩

/-- An event after which the cache is in line was harmless. -/
theorem harmless_of_holdsLive (ev : Event) {items : List Data} (h : Mirrors uid s items)
    (hgood : HoldsLive uid (step uid s ev)) : Harmless s ev := by
  unfold Harmless
  cases hremoves : ev.removes with
  | true =>
      rw [if_pos rfl, ← erase_eq_nil_iff h.nodup]
      by_contra hne
      -- another live message has no item any more
      have hlive : (step uid s ev).live = s.live.erase ev.messageId := by simp [step, record, hremoves]
      obtain ⟨first, rest, hfirst⟩ := List.exists_cons_of_ne_nil hne
      have hone := hgood.once first (by rw [hlive, hfirst]; exact List.mem_cons_self)
      have hitems : cachedItems (step uid s ev).redis (step uid s ev).now uid = [] :=
        (step_remove ev h hremoves).now_holding.cachedItems
      rw [hitems] at hone
      cases hone
  | false =>
      rw [if_neg Bool.false_ne_true]
      have hlive : (step uid s ev).live = ev.messageId :: s.live.erase ev.messageId := by
        simp [step, record, hremoves]
      have hone := hgood.once ev.messageId (by rw [hlive]; exact List.mem_cons_self)
      cases hconnected : ev.connected with
      | true =>
          obtain ⟨data, hid, rest, hwritten⟩ := step_new_online ev h hremoves hconnected
          have hof := (isOf_iff hid).mpr rfl
          have hitems : cachedItems (step uid s ev).redis (step uid s ev).now uid = _ :=
            hwritten.now_holding.cachedItems
          rw [hitems, List.countP_cons, List.countP_cons, if_pos hof] at hone
          omega
      | false =>
          obtain ⟨data, hid, hwritten⟩ := step_new_offline ev h hremoves hconnected
          have hof := (isOf_iff hid).mpr rfl
          have hitems : cachedItems (step uid s ev).redis (step uid s ev).now uid = _ :=
            hwritten.now_holding.cachedItems
          refine ⟨rfl, ?_⟩
          split
          · next hin =>
            rw [hitems, List.countP_cons, if_pos hof, countP_isOf (h.ids_found ev), found, if_pos hin] at hone
            intro hmem
            have hpos := List.count_pos_iff.mpr hmem
            omega
          · next hexpired =>
            rw [← erase_eq_nil_iff h.nodup]
            by_contra hne
            -- another live message has expired
            obtain ⟨first, rest, hfirst⟩ := List.exists_cons_of_ne_nil hne
            have hother : first ≠ ev.messageId := by
              have hmem : first ∈ s.live.erase ev.messageId := hfirst ▸ List.mem_cons_self
              exact (h.nodup.mem_erase_iff.mp hmem).1
            have hfirst' := hgood.once first (by rw [hlive, hfirst]; exact List.mem_cons_of_mem _ List.mem_cons_self)
            rw [hitems, remaining, if_neg hexpired, List.take_nil, List.countP_singleton,
              if_neg fun hof' => hother ((isOf_iff hid).mp hof').symm] at hfirst'
            cases hfirst'

end Events

/-- **The cache holds exactly the live messages**, after each event of a sequence, exactly when every event is
harmless. -/
theorem holds_live_iff (uid : String) (events : List Event) :
    (∀ pre, pre <+: events → HoldsLive uid (run (step uid) .initial pre)) ↔
      Guarded (step uid) Harmless .initial events := by
  refine forall_prefix_iff_guarded_of_invariant (fun s => ∃ items, Mirrors uid s items) (HoldsLive uid) ?_ events
    ?_ ?_ ?_
  · exact ⟨[], Or.inl ⟨rfl, rfl⟩, fun item hitem => absurd hitem List.not_mem_nil, rfl, List.nodup_nil⟩
  · intro s h
    obtain ⟨items, h⟩ := h
    exact h.holdsLive
  · intro s ev h hev
    obtain ⟨items, h⟩ := h
    exact mirrors_step ev h hev
  · intro s ev h hgood
    obtain ⟨items, h⟩ := h
    exact harmless_of_holdsLive ev h hgood

/-- A message without data. -/
def message (removes : Bool) (messageId : String) (connected : Bool) (time : ℚ := 0) : Event where
  time := time
  messageData := [("action_type", .str (if removes then "remove" else "new")), ("message_id", .str messageId)]
  removes := removes
  messageId := messageId
  connected := connected
  action_eq := by cases removes <;> rfl
  id_eq := by cases removes <;> rfl
  data_dict := by cases removes <;> exact fun v h => by cases h

-- A message within a day keeps those before it, and one after it does not.
example : Guarded (step "u") Harmless .initial [message false "m" false 0, message false "n" false 86400] ∧
    ¬Guarded (step "u") Harmless .initial [message false "m" false 0, message false "n" false 90000] := by
  decide +kernel

/-- **A message is cached twice**, for a user that is connected; and a removal takes out the others. -/
theorem message_cached_twice :
    (cachedItems (run (step "u") .initial [message false "m" true]).redis 0 "u").countP (isOf "m") = 2 ∧
    cachedItems (run (step "u") .initial [message false "m" false, message false "n" false,
      message true "n" false]).redis 0 "u" = [] ∧
    ¬∀ events, HoldsLive "u" (run (step "u") .initial events) := by
  refine ⟨by decide +kernel, List.length_eq_zero_iff.mp (by decide +kernel), fun h => ?_⟩
  have hone := (h [message false "m" true]).once "m" List.mem_cons_self
  revert hone
  decide +kernel

end Pinnokio.Realtime.UserCache.DirectMessages
