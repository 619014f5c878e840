import Pinnokio.Lib.Documents
import Pinnokio.Lib.Runs

/-!
# Publishing into the cache

A business event is sent to the client and, always, written to the cache of its domain.  The same key holds the data of
the domain: four lists of items, flat or wrapped by the cache manager, which the metrics are counted from.  The write
edits a list of its own (`items`) for five actions and replaces the whole value for every other one.  What is said here
is about the moment of each write, so the lifetime that a write gives its key is left out.

* `storedLists_updateCache` — editing leaves the four lists alone, replacing leaves those of the payload;
* `lists_kept_iff` — **events destroy no data exactly when every event that replaces its cache finds the four lists
  there empty**.
-/

namespace Pinnokio.Realtime

open Pinnokio.Runs

/-! ### The cache of a domain -/

/-- What a key holds: a JSON text, or one that cannot be decoded. -/
inductive Stored where
  | json (v : Value)
  | undecodable

/-- The keys of the store. -/
abbrev Redis := Dict String Stored

/-- `build_business_key`. -/
def buildBusinessKey (uid companyId domain : String) : String :=
  "business:" ++ uid ++ ":" ++ companyId ++ ":" ++ domain

/-- The value of a cache without the wrapper of the cache manager. -/
def unwrap : Value → Value
  | .map d =>
      match Document.get? d "cache_version", Document.get? d "data" with
      | some _, some data => data
      | _, _ => .map d
  | v => v

/-- `_get_business_data`. -/
def getBusinessData (r : Redis) (uid companyId domain : String) : Option Value :=
  match r.get? (buildBusinessKey uid companyId domain) with
  | some (.json v) => some (unwrap v)
  | _ => none

/-- The names of the lists. -/
def categories : List String := ["to_process", "in_process", "pending", "processed"]

/-- The lists that the metrics are counted from, empty where there is none; `none` is the `AttributeError` of data that
has no keys. -/
def categoryLists : Option Value → Option (List Value)
  | none => some (categories.map fun _ => .list [])
  | some data =>
      if data.truthy then data.asMap.map fun d => categories.map fun k => (Document.get? d k).getD (.list [])
      else some (categories.map fun _ => .list [])

/-! ### Writing an event -/

/-- The modes of `_update_cache`. -/
inductive Mode where
  | add
  | remove
  | update
  | replace
  deriving DecidableEq

/-- The mode of a payload. -/
def modeOf (payload : Document) : Mode :=
  let action := (Document.get? payload "action").getD (.text "full")
  if action.isOneOf ["new", "add"] then .add
  else if action.isOneOf ["remove", "delete"] then .remove
  else if action.isOneOf ["update"] then .update
  else .replace

/-- `d.get(k)`. -/
def field (d : Document) (k : String) : Value := (Document.get? d k).getD (.scalar .none)

/-- `data.get("id") or data.get("docId")`. -/
def itemId (payload : Document) : Value := (field payload "id").or (field payload "docId")

/-- An item that carries an id under one of its two names. -/
def carries (id : Value) (item : Document) : Bool := (field item "id").same id || (field item "docId").same id

/-- The items that do not carry the id; `none` is the error of an item that is not a map. -/
def withoutId (id : Value) : List Value → Option (List Value)
  | [] => some []
  | v :: vs =>
      match v.asMap, withoutId id vs with
      | some item, some rest => some (if carries id item then rest else v :: rest)
      | _, _ => none

/-- The first item that carries the id gets the changes; `none` is the error of an item that is not a map, or of
changes that are not one. -/
def changeFirst (id : Value) (changes : Value) : List Value → Option (List Value)
  | [] => some []
  | v :: vs =>
      match v.asMap with
      | none => none
      | some item =>
          if carries id item then
            changes.asMap.map fun new => .map (new.foldl (fun d e => Dict.setList e.1 e.2 d) item) :: vs
          else (changeFirst id changes vs).map (v :: ·)

/-- The new value of `items`; `none` is an error. -/
def editItems (mode : Mode) (payload : Document) (items : Value) : Option Value :=
  match mode with
  | .add =>
      match items with
      | .list xs => some (.list (((Document.get? payload "item").getD (.map payload) :: xs).take 100))
      | _ => none
  | .remove => (items.elements.bind (withoutId (itemId payload))).map .list
  | .update =>
      match items with
      | .list xs =>
          (changeFirst (itemId payload) ((Document.get? payload "changes").getD (.map [])) xs).map .list
      | other =>
          match other.elements with
          | some [] => some other
          | _ => none
  | .replace => none

/-- What a key holds, as `_update_cache` decodes it. -/
def cachedValue (r : Redis) (key : String) : Value :=
  match r.get? key with
  | some (.json v) => v
  | _ => .map []

/-- The cache with its `items` edited; `none` is an error. -/
def editCache (mode : Mode) (payload : Document) : Value → Option Value
  | .map d =>
      (editItems mode payload ((Document.get? d "items").getD (.list []))).map fun items =>
        .map (Dict.setList "items" items d)
  | _ => none

/-- `_update_cache`: an error leaves the store as it is. -/
def updateCache (r : Redis) (key : String) (payload : Document) : Redis :=
  match modeOf payload with
  | .replace => r.set key (.json (.map payload))
  | mode =>
      match editCache mode payload (cachedValue r key) with
      | none => r
      | some v => r.set key (.json v)

/-! ### The events of the realtime layer -/

/-- The events, with the data they are made of. -/
inductive Event where
  /-- `bank.suggestions_updated`, after a document was scored. -/
  | suggestionsUpdated (uid companyId : String) (updatedCount : Int)
  /-- `dashboard.pending_approval_update`; the action is the one of the message. -/
  | pendingApproval (uid companyId : String) (action : Value) (item : Document) (jobId department : Value)
  /-- `{domain}.task_manager_update`, for the domain of the message and for the domains it touches. -/
  | taskManagerUpdate (uid companyId domain : String) (data : Document)
  /-- `dashboard.billing_item_update`. -/
  | billingItemUpdate (uid companyId : String) (item : Document) (jobId : Value) (domain : String)
  /-- `dashboard.metrics_update`; `none` if the metrics could not be calculated. -/
  | metricsUpdate (uid companyId : String) (metrics : Option Value)

namespace Event

/-- The user, the company and the domain of an event. -/
def target : Event → String × String × String
  | suggestionsUpdated uid companyId _ => (uid, companyId, "bank")
  | pendingApproval uid companyId .. => (uid, companyId, "dashboard")
  | taskManagerUpdate uid companyId domain _ => (uid, companyId, domain)
  | billingItemUpdate uid companyId .. => (uid, companyId, "dashboard")
  | metricsUpdate uid companyId _ => (uid, companyId, "dashboard")

/-- The payload of an event; `none` if it is not sent. -/
def payload : Event → Option Document
  | suggestionsUpdated _ _ updatedCount =>
      some [("action", .text "suggestions_updated"), ("updated_count", .scalar (.int updatedCount)),
        ("trigger", .text "routing_completed:expense")]
  | pendingApproval _ _ action item jobId department =>
      some [("action", action), ("item", .map item), ("job_id", jobId), ("department", department)]
  | taskManagerUpdate _ _ _ data => some [("action", .text "update"), ("data", .map data)]
  | billingItemUpdate _ _ item jobId domain =>
      some [("action", .text "update"), ("item", .map item), ("job_id", jobId), ("domain", .text domain)]
  | metricsUpdate _ _ metrics => metrics.map fun m => [("metrics", m), ("action", .text "full")]

/-- The key of the cache an event is written to. -/
def key (ev : Event) : String := buildBusinessKey ev.target.1 ev.target.2.1 ev.target.2.2

/-- An event that is written to its cache: `company_id and domain required for BUSINESS level`. -/
def written (ev : Event) : Option Document :=
  if ev.target.2.1 = "" ∨ ev.target.2.2 = "" then none else ev.payload

end Event

/-- `publish_business_event`: what is sent to the client does not change the store. -/
def publishBusinessEvent (r : Redis) (ev : Event) : Redis :=
  match ev.written with
  | none => r
  | some payload => updateCache r ev.key payload

/-- The events that replace the cache they are written to. -/
def Event.Replaces : Event → Prop
  | suggestionsUpdated _ companyId _ => companyId ≠ ""
  | pendingApproval _ companyId action .. =>
      companyId ≠ "" ∧ action.isOneOf ["new", "add", "remove", "delete", "update"] = false
  | taskManagerUpdate .. => False
  | billingItemUpdate .. => False
  | metricsUpdate _ companyId metrics => companyId ≠ "" ∧ metrics.isSome

/-- Four empty lists. -/
def noLists : List Value := categories.map fun _ => .list []

/-- An event that replaces its cache finds the lists there empty. -/
def Harmless (r : Redis) (ev : Event) : Prop :=
  ev.Replaces → categoryLists (getBusinessData r ev.target.1 ev.target.2.1 ev.target.2.2) = some noLists

/-! ### What a write leaves of the lists -/

section

variable {r : Redis} {key : String} {payload : Document}

/-- The lists in what a key holds. -/
def storedLists : Option Stored → Option (List Value)
  | some (.json v) => categoryLists (some (unwrap v))
  | _ => some noLists

theorem categoryLists_getBusinessData (r : Redis) (uid companyId domain : String) :
    categoryLists (getBusinessData r uid companyId domain) =
      storedLists (r.get? (buildBusinessKey uid companyId domain)) := by
  unfold getBusinessData storedLists
  split <;> rfl

theorem categoryLists_map (d : Document) :
    categoryLists (some (.map d)) = some (categories.map fun k => (Document.get? d k).getD (.list [])) := by
  cases d <;> rfl

/-- Keys other than `items` read as before. -/
theorem get?_setItems (items : Value) (d : Document) {k : String} (hk : k ≠ "items") :
    Document.get? (Dict.setList "items" items d) k = Document.get? d k := by
  rw [Document.get?, Dict.getList_setList, if_neg hk, Document.get?]

/-- Editing `items` leaves the four lists alone, in both layouts. -/
theorem categoryLists_setItems (items : Value) (d : Document) :
    categoryLists (some (unwrap (.map (Dict.setList "items" items d)))) = categoryLists (some (unwrap (.map d))) := by
  have hplain : categoryLists (some (.map (Dict.setList "items" items d))) = categoryLists (some (.map d)) := by
    rw [categoryLists_map, categoryLists_map]
    refine congrArg some (List.map_congr_left fun k hk => ?_)
    rw [get?_setItems items d fun heq => absurd (heq ▸ hk) (by decide)]
  simp only [unwrap]
  rw [get?_setItems items d (by decide), get?_setItems items d (by decide)]
  cases Document.get? d "cache_version" with
  | none => exact hplain
  | some version =>
      cases Document.get? d "data" with
      | none => exact hplain
      | some data => rfl

theorem storedLists_cachedValue (r : Redis) (key : String) :
    storedLists (some (.json (cachedValue r key))) = storedLists (r.get? key) := by
  unfold cachedValue
  split
  · next v hv => rw [hv]
  · next hnone =>
    cases hget : r.get? key with
    | none => rfl
    | some stored =>
        cases stored with
        | json v => exact absurd hget (hnone v)
        | undecodable => rfl

theorem storedLists_editCache {mode : Mode} {v v' : Value} (h : editCache mode payload v = some v') :
    storedLists (some (.json v')) = storedLists (some (.json v)) := by
  cases v with
  | map d =>
      obtain ⟨items, -, rfl⟩ := Option.map_eq_some_iff.mp h
      exact categoryLists_setItems items d
  | scalar v => cases h
  | list vs => cases h

/-- **What a write leaves of the lists**: all of them, or those of the payload. -/
theorem storedLists_updateCache (r : Redis) (key : String) (payload : Document) :
    storedLists ((updateCache r key payload).get? key) =
      if modeOf payload = .replace then storedLists (some (.json (.map payload))) else storedLists (r.get? key) := by
  unfold updateCache
  split
  · next hmode => rw [if_pos hmode, Dict.get?_set_self]
  · next hmode =>
    rw [if_neg hmode]
    split
    · rfl
    · next v hv => rw [Dict.get?_set_self, storedLists_editCache hv, storedLists_cachedValue]

/-- Other keys are not written. -/
theorem get?_updateCache_ne (r : Redis) {key key' : String} (payload : Document) (h : key' ≠ key) :
    (updateCache r key payload).get? key' = r.get? key' := by
  unfold updateCache
  split
  · exact Dict.get?_set_ne _ _ h
  · split
    · rfl
    · exact Dict.get?_set_ne _ _ h

/-! ### Events -/

/-- The payload of an event has no lists. -/
theorem storedLists_payload {ev : Event} (h : ev.payload = some payload) :
    storedLists (some (.json (.map payload))) = some noLists := by
  cases ev with
  | suggestionsUpdated uid companyId updatedCount => cases h; rfl
  | pendingApproval uid companyId action item jobId department => cases h; rfl
  | taskManagerUpdate uid companyId domain data => cases h; rfl
  | billingItemUpdate uid companyId item jobId domain => cases h; rfl
  | metricsUpdate uid companyId metrics =>
      obtain ⟨m, -, rfl⟩ := Option.map_eq_some_iff.mp h
      rfl

theorem isOneOf_append (names names' : List String) (v : Value) :
    v.isOneOf (names ++ names') = (v.isOneOf names || v.isOneOf names') := by
  unfold Value.isOneOf
  split <;> simp

/-- The five actions that edit. -/
theorem modeOf_eq_replace_iff {payload : Document} {action : Value} (h : Document.get? payload "action" = some action) :
    modeOf payload = .replace ↔ action.isOneOf ["new", "add", "remove", "delete", "update"] = false := by
  have hsplit : action.isOneOf ["new", "add", "remove", "delete", "update"] =
      (action.isOneOf ["new", "add"] || (action.isOneOf ["remove", "delete"] || action.isOneOf ["update"])) := by
    rw [← isOneOf_append, ← isOneOf_append]
    rfl
  rw [hsplit, modeOf, h, Option.getD_some]
  cases action.isOneOf ["new", "add"] <;> cases action.isOneOf ["remove", "delete"] <;>
    cases action.isOneOf ["update"] <;> simp

/-- The events that replace their cache. -/
theorem replaces_iff (ev : Event) :
    ev.Replaces ↔ ∃ payload, ev.written = some payload ∧ modeOf payload = .replace := by
  cases ev with
  | suggestionsUpdated uid companyId updatedCount =>
      by_cases hc : companyId = ""
      · simp [Event.Replaces, Event.written, Event.target, hc]
      · simp [Event.Replaces, Event.written, Event.target, Event.payload, hc, modeOf, Document.get?, Dict.getList,
          Value.isOneOf, Value.text]
  | pendingApproval uid companyId action item jobId department =>
      by_cases hc : companyId = ""
      · simp [Event.Replaces, Event.written, Event.target, hc]
      · have hwritten : (Event.pendingApproval uid companyId action item jobId department).written =
            some [("action", action), ("item", .map item), ("job_id", jobId), ("department", department)] :=
          if_neg (by simp [Event.target, hc])
        rw [hwritten]
        simp only [Option.some.injEq, exists_eq_left']
        refine (and_iff_right hc).trans ?_
        rw [@modeOf_eq_replace_iff _ action rfl]
  | taskManagerUpdate uid companyId domain data =>
      simp [Event.Replaces, Event.written, Event.payload, modeOf, Document.get?, Dict.getList, Value.isOneOf,
        Value.text]
  | billingItemUpdate uid companyId item jobId domain =>
      simp [Event.Replaces, Event.written, Event.payload, modeOf, Document.get?, Dict.getList, Value.isOneOf,
        Value.text]
  | metricsUpdate uid companyId metrics =>
      by_cases hc : companyId = ""
      · simp [Event.Replaces, Event.written, Event.target, hc]
      · cases metrics <;>
          simp [Event.Replaces, Event.written, Event.target, Event.payload, hc, modeOf, Document.get?, Dict.getList,
            Value.isOneOf, Value.text]

/-- One event leaves the lists of every cache alone exactly when it is harmless. -/
theorem lists_publish_iff (r : Redis) (ev : Event) :
    (∀ uid companyId domain, categoryLists (getBusinessData (publishBusinessEvent r ev) uid companyId domain) =
      categoryLists (getBusinessData r uid companyId domain)) ↔ Harmless r ev := by
  simp only [categoryLists_getBusinessData, Harmless, replaces_iff, publishBusinessEvent]
  cases hw : ev.written with
  | none => simp
  | some payload =>
      have hpayload : ev.payload = some payload := by
        rw [Event.written] at hw
        split at hw
        · cases hw
        · exact hw
      have hself := storedLists_updateCache r ev.key payload
      rw [storedLists_payload hpayload] at hself
      simp only [Option.some.injEq, exists_eq_left']
      constructor
      · intro h hmode
        have hkept := h ev.target.1 ev.target.2.1 ev.target.2.2
        rw [if_pos hmode] at hself
        exact hkept.symm.trans hself
      · intro h uid companyId domain
        by_cases hkey : buildBusinessKey uid companyId domain = ev.key
        · rw [hkey, hself]
          split
          · next hmode => exact (h hmode).symm
          · rfl
        · rw [get?_updateCache_ne r payload hkey]

end

/-- **Events destroy no data** exactly when every event that replaces its cache finds the lists there empty. -/
theorem lists_kept_iff (r : Redis) (events : List Event) :
    (∀ pre, pre <+: events → ∀ uid companyId domain,
      categoryLists (getBusinessData (run publishBusinessEvent r pre) uid companyId domain) =
        categoryLists (getBusinessData r uid companyId domain)) ↔
      Guarded publishBusinessEvent Harmless r events := by
  let Kept : Redis → Prop := fun r' => ∀ uid companyId domain,
    categoryLists (getBusinessData r' uid companyId domain) = categoryLists (getBusinessData r uid companyId domain)
  have hstep : ∀ r', ∀ ev ∈ events, Kept r' → (Kept (publishBusinessEvent r' ev) ↔ Harmless r' ev) := by
    intro r' ev _ hkept
    rw [← lists_publish_iff]
    refine forall_congr' fun uid => forall_congr' fun companyId => forall_congr' fun domain => ?_
    rw [hkept uid companyId domain]
  exact (forall_prefix_iff_guarded Kept r events hstep).trans (and_iff_right fun _ _ _ => rfl)

/-- The cache of a bank account with one open transaction. -/
def bankCache : Redis :=
  Dict.ofList [(buildBusinessKey "u" "c" "bank",
    .json (.map [("to_process", .list [.map [("id", .text "577")]]), ("in_process", .list []), ("pending", .list []),
      ("processed", .list [])]))]

/-- **The bank's data is gone**: the event that tells of new suggestions replaces it. -/
theorem lists_destroyed : ¬∀ pre, pre <+: [Event.suggestionsUpdated "u" "c" 1] → ∀ uid companyId domain,
    categoryLists (getBusinessData (run publishBusinessEvent bankCache pre) uid companyId domain) =
      categoryLists (getBusinessData bankCache uid companyId domain) := by
  intro h
  have hlists := h _ (List.prefix_refl _) "u" "c" "bank"
  have hempty : [Value.list [], .list [], .list [], .list []] =
      [.list [.map [("id", .text "577")]], .list [], .list [], .list []] := Option.some.inj hlists
  cases hempty

end Pinnokio.Realtime
