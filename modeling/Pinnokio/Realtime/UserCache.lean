import Mathlib.Algebra.Order.Field.Rat
import Pinnokio.Realtime.ContextualPublisher

/-!
# The caches of a user

A user event is written to the cache of the user as a business event is to the cache of its domain.  Here the values
have numbers, and the keys a lifetime: a write gives the key that of the event, whatever it was before.

* `get?_editCache` — editing leaves every key but `items` alone;
* `updateCache_of_some`, `get_setex` — the cache after a write, and the time until which it is there.
-/

namespace Pinnokio.Realtime.UserCache

/-- A JSON value, with exact numbers. -/
inductive Data where
  | null
  | bool (b : Bool)
  | number (x : ℚ)
  | str (s : String)
  | list (items : List Data)
  | dict (fields : List (String × Data))

/-- The keys of a JSON object. -/
abbrev Object := List (String × Data)

/-- `d.get(k)`. -/
def Object.get? (d : Object) (k : String) : Option Data := Dict.getList k d

namespace Data

/-- The truth value the interpreter gives a value. -/
def truthy : Data → Bool
  | null => false
  | bool b => b
  | number x => x ≠ 0
  | str s => s ≠ ""
  | list items => !items.isEmpty
  | dict fields => !fields.isEmpty

/-- The number that a value compares as. -/
def number? : Data → Option ℚ
  | bool b => some (if b then 1 else 0)
  | number x => some x
  | _ => none

/-- The keys of a value that is a dict. -/
def asDict : Data → Option Object
  | dict fields => some fields
  | _ => none

/-- `v in names`, for a list of texts. -/
def isOneOf (names : List String) : Data → Bool
  | str s => s ∈ names
  | _ => false

mutual

/-- The interpreter's `v == w`. -/
def same : Data → Data → Bool
  | null, null => true
  | str s, str s' => s = s'
  | list xs, list ys => sameItems xs ys
  | dict xs, dict ys => decide (xs.length = ys.length) && sameFields xs ys
  | v, w =>
      match v.number?, w.number? with
      | some x, some y => x = y
      | _, _ => false

/-- Lists are compared in order. -/
def sameItems : List Data → List Data → Bool
  | [], [] => true
  | x :: xs, y :: ys => same x y && sameItems xs ys
  | _, _ => false

/-- Objects are compared by key. -/
def sameFields : List (String × Data) → List (String × Data) → Bool
  | [], _ => true
  | (k, v) :: xs, ys =>
      (match Dict.getList k ys with
        | none => false
        | some w => same v w) && sameFields xs ys

end

/-- What iterating over a value gives; `none` is the `TypeError` of a value that has no elements. -/
def elements : Data → Option (List Data)
  | list items => some items
  | dict fields => some (fields.map fun e => str e.1)
  | str s => some (s.toList.map fun c => str (String.singleton c))
  | _ => none

/-- The interpreter's `v or w`. -/
def or (v w : Data) : Data := if v.truthy then v else w

end Data

/-! ### Editing a cache -/

/-- The mode of a payload. -/
def modeOf (payload : Object) : Mode :=
  let action := (payload.get? "action").getD (.str "full")
  if action.isOneOf ["new", "add"] then .add
  else if action.isOneOf ["remove", "delete"] then .remove
  else if action.isOneOf ["update"] then .update
  else .replace

/-- `d.get(k)`. -/
def field (d : Object) (k : String) : Data := (d.get? k).getD .null

/-- `data.get("id") or data.get("docId")`. -/
def itemId (payload : Object) : Data := (field payload "id").or (field payload "docId")

/-- An item that carries an id under one of its two names. -/
def carries (id : Data) (item : Object) : Bool := (field item "id").same id || (field item "docId").same id

/-- The items that do not carry the id; `none` is the error of an item that is not a dict. -/
def withoutId (id : Data) : List Data → Option (List Data)
  | [] => some []
  | v :: vs =>
      match v.asDict, withoutId id vs with
      | some item, some rest => some (if carries id item then rest else v :: rest)
      | _, _ => none

/-- The first item that carries the id gets the changes; `none` is the error of an item that is not a dict, or of
changes that are not one. -/
def changeFirst (id : Data) (changes : Data) : List Data → Option (List Data)
  | [] => some []
  | v :: vs =>
      match v.asDict with
      | none => none
      | some item =>
          if carries id item then
            changes.asDict.map fun new => .dict (new.foldl (fun d e => Dict.setList e.1 e.2 d) item) :: vs
          else (changeFirst id changes vs).map (v :: ·)

/-- The new value of `items`; `none` is an error. -/
def editItems (mode : Mode) (payload : Object) (items : Data) : Option Data :=
  match mode with
  | .add =>
      match items with
      | .list xs => some (.list (((payload.get? "item").getD (.dict payload) :: xs).take 100))
      | _ => none
  | .remove => (items.elements.bind (withoutId (itemId payload))).map .list
  | .update =>
      match items with
      | .list xs => (changeFirst (itemId payload) ((payload.get? "changes").getD (.dict [])) xs).map .list
      | other =>
          match other.elements with
          | some [] => some other
          | _ => none
  | .replace => none

/-- The value that `_update_cache` writes; `none` is an error. -/
def editCache (payload : Object) (cached : Data) : Option Data :=
  match modeOf payload with
  | .replace => some (.dict payload)
  | mode =>
      match cached with
      | .dict d =>
          (editItems mode payload ((Object.get? d "items").getD (.list []))).map fun items =>
            .dict (Dict.setList "items" items d)
      | _ => none

/-! ### The store -/

/-- What a key holds, and how long. -/
structure Entry where
  value : Data
  expires : ℚ

/-- The keys of the store. -/
abbrev Redis := Dict String Entry

/-- `redis.get(key)`. -/
def get (r : Redis) (now : ℚ) (key : String) : Option Data :=
  match r.get? key with
  | none => none
  | some e => if now ≤ e.expires then some e.value else none

/-- `redis.setex(key, ttl, value)`. -/
def setex (r : Redis) (now : ℚ) (key : String) (ttl : ℕ) (value : Data) : Redis := r.set key ⟨value, now + ttl⟩

/-- `_update_cache`: an error leaves the store as it is. -/
def updateCache (r : Redis) (now : ℚ) (key : String) (payload : Object) (ttl : ℕ) : Redis :=
  match editCache payload ((get r now key).getD (.dict [])) with
  | none => r
  | some value => setex r now key ttl value

/-- `_get_cache_key` at the level of the user. -/
def userKey (uid subkey : String) : String := "user:" ++ uid ++ ":" ++ subkey

/-- `RedisTTL.USER_PROFILE`, which is also what `get_ttl_for_level` gives for the level of the user. -/
def userProfileTtl : ℕ := 86400

/-- `cache_ttl or _get_ttl_for_cache(level, target_domain)`. -/
def eventTtl (cacheTtl : ℕ) : ℕ := if cacheTtl = 0 then userProfileTtl else cacheTtl

/-- `publish_user_event`: the cache is written, whether or not the event is sent. -/
def publishUserEvent (r : Redis) (now : ℚ) (uid : String) (payload : Object) (cacheSubkey : String)
    (cacheTtl : ℕ := userProfileTtl) : Redis :=
  updateCache r now (userKey uid cacheSubkey) payload (eventTtl cacheTtl)

/-! ### What a write leaves -/

variable {r : Redis} {now t : ℚ} {key : String} {payload : Object} {ttl : ℕ} {value : Data}

/-- A key that was just written. -/
theorem get_setex : get (setex r now key ttl value) t key = if t ≤ now + ttl then some value else none := by
  rw [get, setex, Dict.get?_set_self]

/-- A write that fails leaves the store as it is. -/
theorem updateCache_of_none (h : editCache payload ((get r now key).getD (.dict [])) = none) :
    updateCache r now key payload ttl = r := by
  rw [updateCache, h]

/-- Any other one gives the key a new lifetime. -/
theorem updateCache_of_some (h : editCache payload ((get r now key).getD (.dict [])) = some value) :
    updateCache r now key payload ttl = setex r now key ttl value := by
  rw [updateCache, h]

/-- Editing `items` leaves the other keys alone. -/
theorem get?_editCache {d : Object} (hmode : modeOf payload ≠ .replace) (h : editCache payload (.dict d) = some value) :
    ∃ d', value = .dict d' ∧ ∀ k, k ≠ "items" → Object.get? d' k = Object.get? d k := by
  unfold editCache at h
  split at h
  · next hreplace => exact absurd hreplace hmode
  · obtain ⟨items, -, rfl⟩ := Option.map_eq_some_iff.mp h
    refine ⟨_, rfl, fun k hk => ?_⟩
    rw [Object.get?, Dict.getList_setList, if_neg hk]
    rfl

end Pinnokio.Realtime.UserCache
