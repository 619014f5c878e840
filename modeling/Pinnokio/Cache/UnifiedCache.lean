import Mathlib.Data.Set.Function
import Pinnokio.Lib.Documents
import Pinnokio.Lib.Runs
import Pinnokio.Lib.Text

/-!
# The unified cache manager

Datasets are cached under keys of three levels.  A table resolves the data type and the sub-type of a dataset to a level
and a domain, first with the sub-type, then without it; what it does not have is a business domain of its own.  Two data
types also get the sub-type into the key, as the key of an item.  Reading falls back on the key of the old layout, which
nothing writes any more.

* `stored_run` — what a key holds was stored by a dataset with that key;
* `never_mixed_iff` — **the cache never returns the data of another dataset** exactly when no two of the datasets have
  the same key;
* `cacheKey_eq_iff` — which datasets have the same key;
* `slotOf_pendinglist`, `other_department` — the departments of the approval list have.
-/

namespace Pinnokio.Cache

open Pinnokio.Runs Pinnokio.Text

/-! ### Keys -/

/-- The levels of the cache. -/
inductive CacheLevel where
  | user
  | company
  | business
  deriving DecidableEq

/-- `LEGACY_TO_BUSINESS_MAP`. -/
def legacyToBusinessMap : List ((String × Option String) × (CacheLevel × String)) :=
  [(("mandate", some "snapshot"), (.company, "context")),
   (("company", some "context"), (.company, "context")),
   (("company", some "settings"), (.company, "settings")),
   (("bank", some "transactions"), (.business, "bank")),
   (("bank", none), (.business, "bank")),
   (("drive", some "documents"), (.business, "routing")),
   (("routing", none), (.business, "routing")),
   (("apbookeeper", some "documents"), (.business, "invoices")),
   (("apbookeeper", none), (.business, "invoices")),
   (("invoices", none), (.business, "invoices")),
   (("expenses", some "details"), (.business, "expenses")),
   (("expenses", some "open"), (.business, "expenses")),
   (("expenses", some "closed"), (.business, "expenses")),
   (("expenses", none), (.business, "expenses")),
   (("coa", some "accounts"), (.business, "coa")),
   (("coa", some "functions"), (.business, "coa")),
   (("coa", none), (.business, "coa")),
   (("approval_pendinglist", none), (.business, "dashboard")),
   (("dashboard", none), (.business, "dashboard")),
   (("tasks", some "list"), (.business, "tasks")),
   (("tasks", none), (.business, "tasks")),
   (("hr", some "employees"), (.business, "hr")),
   (("hr", some "contracts"), (.business, "hr")),
   (("hr", some "references"), (.business, "hr")),
   (("hr", none), (.business, "hr")),
   (("chat", none), (.business, "chat"))]

/-- `ITEM_LEVEL_CACHE_TYPES`. -/
def itemLevelCacheTypes : List String := ["chat:history:raw", "chat:sessions"]

/-- The arguments that a dataset is cached under. -/
structure Dataset where
  userId : String
  companyId : String
  dataType : String
  subType : Option String
  deriving DecidableEq

/-- A text that counts: `if sub_type`. -/
def given : Option String → Option String
  | some "" => none
  | v => v

/-- `build_company_context_key`, `build_company_settings_key`. -/
def buildCompanyKey (uid companyId suffix : String) : String :=
  "company:" ++ (uid ++ (":" ++ (companyId ++ (":" ++ suffix))))

/-- `build_business_key`. -/
def buildBusinessKey (uid companyId domain : String) (itemKey : Option String) : String :=
  "business:" ++ (uid ++ (":" ++ (companyId ++ (":" ++ (domain ++
    match given itemKey with
    | none => ""
    | some item => ":" ++ item)))))

/-- `build_cache_key` of the old layout. -/
def buildLegacyCacheKey (d : Dataset) : String :=
  "cache:" ++ (d.userId ++ (":" ++ (d.companyId ++ (":" ++ (d.dataType ++
    match given d.subType with
    | none => ""
    | some s => ":" ++ s)))))

/-- `RedisTTL` for a domain: `get_ttl_for_domain`. -/
def getTtlForDomain (domain : String) : ℕ :=
  (Dict.getList domain [("bank", 2400), ("routing", 1800), ("invoices", 2400), ("expenses", 2400), ("coa", 3600),
    ("dashboard", 1800), ("tasks", 2400), ("chat", 86400), ("hr", 3600)]).getD 2400

section Manager

/- `str.lower`. -/
variable (lower : String → String)

/-- `_resolve_cache_level`. -/
def resolveCacheLevel (dataType : String) (subType : Option String) : CacheLevel × String :=
  match Dict.getList (lower dataType, (given subType).map lower) legacyToBusinessMap with
  | some resolved => resolved
  | none =>
      match Dict.getList (lower dataType, none) legacyToBusinessMap with
      | some resolved => resolved
      | none => (.business, lower dataType)

/-- The item that gets into the key. -/
def itemOf (d : Dataset) : Option String :=
  if lower d.dataType ∈ itemLevelCacheTypes then given d.subType else none

/-- `_build_cache_key`. -/
def buildCacheKey (d : Dataset) : String :=
  match resolveCacheLevel lower d.dataType d.subType with
  | (.company, suffix) => buildCompanyKey d.userId d.companyId (if suffix = "settings" then "settings" else "context")
  | (.business, domain) => buildBusinessKey d.userId d.companyId domain (itemOf lower d)
  | (.user, _) => buildLegacyCacheKey d

/-! ### Operations -/

/-- What is stored under a key. -/
structure Payload where
  data : Value
  cachedAt : String
  ttlSeconds : ℕ
  source : String

/-- The keys of the cache. -/
abbrev Redis := Dict String Payload

/-- The time to live of an entry, if none is given. -/
def defaultTtl (d : Dataset) : ℕ :=
  match resolveCacheLevel lower d.dataType d.subType with
  | (.business, domain) => getTtlForDomain domain
  | _ => 3600

/-- The payload that is stored. -/
def payloadOf (d : Dataset) (data : Value) (ttlSeconds : Option ℕ) (now : String) : Payload where
  data := data
  cachedAt := now
  ttlSeconds := ttlSeconds.getD (defaultTtl lower d)
  source := match given d.subType with
    | none => d.dataType
    | some s => d.dataType ++ "." ++ s

/-- Data that are stored: nothing is for `None`. -/
def storable : Value → Option Value
  | .scalar .none => none
  | data => some data

/-- `set_cached_data`. -/
def setCachedData (r : Redis) (d : Dataset) (data : Value) (ttlSeconds : Option ℕ) (now : String) : Redis × Bool :=
  match storable data with
  | none => (r, false)
  | some data => (r.set (buildCacheKey lower d) (payloadOf lower d data ttlSeconds now), true)

/-- The payload under the key, else under the key of the old layout, which is then copied. -/
def lookup (r : Redis) (d : Dataset) : Redis × Option Payload :=
  match r.get? (buildCacheKey lower d) with
  | some payload => (r, some payload)
  | none =>
      if buildCacheKey lower d = buildLegacyCacheKey d then (r, none)
      else
        match r.get? (buildLegacyCacheKey d) with
        | some payload => (r.set (buildCacheKey lower d) payload, some payload)
        | none => (r, none)

/-- The data are not an empty list. -/
def Payload.readable (payload : Payload) : Bool :=
  match payload.data with
  | .list [] => false
  | _ => true

/-- `get_cached_data`; an empty list is deleted and not returned. -/
def getCachedData (r : Redis) (d : Dataset) : Redis × Option Payload :=
  match lookup lower r d with
  | (r, none) => (r, none)
  | (r, some payload) => if payload.readable then (r, some payload) else (r.erase (buildCacheKey lower d), none)

/-- `invalidate_cache`. -/
def invalidateCache (r : Redis) (d : Dataset) : Redis :=
  (r.erase (buildCacheKey lower d)).erase (buildLegacyCacheKey d)

/-- The calls of the manager. -/
inductive Op where
  | set (d : Dataset) (data : Value) (ttlSeconds : Option ℕ) (now : String)
  | get (d : Dataset)
  | invalidate (d : Dataset)

/-- The dataset of a call. -/
def Op.dataset : Op → Dataset
  | .set d .. => d
  | .get d => d
  | .invalidate d => d

/-- One call. -/
def apply (r : Redis) : Op → Redis
  | .set d data ttlSeconds now => (setCachedData lower r d data ttlSeconds now).1
  | .get d => (getCachedData lower r d).1
  | .invalidate d => invalidateCache lower r d

/-- The data that a call stores for a dataset. -/
def storedBy (d : Dataset) : Op → Option Value
  | .set d' data .. => if d' = d then storable data else none
  | _ => none

/-- The data that the last `set_cached_data` of a dataset stored. -/
def lastStored (d : Dataset) (ops : List Op) : Option Value := ops.foldl (fun last op => (storedBy d op).or last) none

/-- Every read that returns something returns the data last stored with its own arguments. -/
def NeverMixed (ops : List Op) : Prop :=
  ∀ pre d, pre ++ [.get d] <+: ops → ∀ payload, (getCachedData lower (run (apply lower) ∅ pre) d).2 = some payload →
    lastStored d pre = some payload.data

end Manager

/-! ### Which datasets share a key -/

section Keys

variable {lower : String → String}

/-- The name of a level in a key. -/
def CacheLevel.value : CacheLevel → String
  | .user => "user"
  | .company => "company"
  | .business => "business"

theorem CacheLevel.value_injective : Function.Injective CacheLevel.value := by
  intro a b h
  cases a <;> cases b <;> first | rfl | exact absurd h (by decide)

theorem CacheLevel.not_mem_value (level : CacheLevel) : ':' ∉ level.value.toList := by
  cases level <;> decide

/-- What a dataset is resolved to: the level, and what follows the ids in the key. -/
def slotOf (lower : String → String) (d : Dataset) : CacheLevel × String :=
  match resolveCacheLevel lower d.dataType d.subType with
  | (.business, domain) => (.business, domain ++
      match given (itemOf lower d) with
      | none => ""
      | some item => ":" ++ item)
  | (level, suffix) => (level, if suffix = "settings" then "settings" else "context")

/-- Nothing is resolved to the level of the user. -/
theorem resolveCacheLevel_ne_user (lower : String → String) (dataType : String) (subType : Option String) :
    (resolveCacheLevel lower dataType subType).1 ≠ .user := by
  have htable : ∀ e ∈ legacyToBusinessMap, e.2.1 ≠ CacheLevel.user := by decide
  have hentry : ∀ k resolved, Dict.getList k legacyToBusinessMap = some resolved → resolved.1 ≠ CacheLevel.user := by
    intro k resolved h
    have hmem : (k, resolved) ∈ legacyToBusinessMap := (Dict.getList_eq_some_iff (by decide)).mp h
    exact htable _ hmem
  unfold resolveCacheLevel
  split
  · next resolved h => exact hentry _ _ h
  · split
    · next resolved h => exact hentry _ _ h
    · exact CacheLevel.noConfusion

/-- The key of a dataset: the level, the ids, and the rest. -/
theorem buildCacheKey_eq (d : Dataset) :
    buildCacheKey lower d = (slotOf lower d).1.value ++ (":" ++ (d.userId ++ (":" ++ (d.companyId ++ (":" ++
      (slotOf lower d).2))))) := by
  have huser := resolveCacheLevel_ne_user lower d.dataType d.subType
  unfold buildCacheKey slotOf
  split
  · next suffix h =>
    rw [h]
    have hlevel : "company:" = "company" ++ ":" := by decide
    rw [buildCompanyKey, hlevel, String.append_assoc]
    rfl
  · next domain h =>
    rw [h]
    have hlevel : "business:" = "business" ++ ":" := by decide
    rw [buildBusinessKey, hlevel, String.append_assoc]
    rfl
  · next suffix h => exact absurd (congrArg Prod.fst h) huser

theorem slotOf_ne_user (d : Dataset) : (slotOf lower d).1 ≠ .user := by
  have huser := resolveCacheLevel_ne_user lower d.dataType d.subType
  unfold slotOf
  split
  · exact CacheLevel.noConfusion
  · next level suffix _ h => exact fun heq => huser ((congrArg Prod.fst h).trans heq)

/-- The separator of the keys. -/
theorem colon : ":".toList = [':'] := by decide

/-- A key is never one of the old layout. -/
theorem buildCacheKey_ne_legacy (d d' : Dataset) : buildCacheKey lower d ≠ buildLegacyCacheKey d' := by
  intro h
  have hcache : "cache:" = "cache" ++ ":" := by decide
  rw [buildCacheKey_eq, buildLegacyCacheKey, hcache, String.append_assoc] at h
  have hlevel := (cut colon (CacheLevel.not_mem_value _) (by decide) h).1
  cases hslot : (slotOf lower d).1 with
  | user => exact slotOf_ne_user d hslot
  | company =>
      rw [hslot] at hlevel
      exact absurd hlevel (by decide)
  | business =>
      rw [hslot] at hlevel
      exact absurd hlevel (by decide)

/-- The ids of a dataset have no colon. -/
def Dataset.PlainIds (d : Dataset) : Prop := ':' ∉ d.userId.toList ∧ ':' ∉ d.companyId.toList

/-- **Two datasets have the same key** exactly when their ids agree and they are resolved to the same slot. -/
theorem cacheKey_eq_iff {d d' : Dataset} (hd : d.PlainIds) (hd' : d'.PlainIds) :
    buildCacheKey lower d = buildCacheKey lower d' ↔
      d.userId = d'.userId ∧ d.companyId = d'.companyId ∧ slotOf lower d = slotOf lower d' := by
  constructor
  · intro h
    rw [buildCacheKey_eq, buildCacheKey_eq] at h
    obtain ⟨hlevel, h⟩ := cut colon (CacheLevel.not_mem_value _) (CacheLevel.not_mem_value _) h
    obtain ⟨huser, h⟩ := cut colon hd.1 hd'.1 h
    obtain ⟨hcompany, hrest⟩ := cut colon hd.2 hd'.2 h
    exact ⟨huser, hcompany, Prod.ext (CacheLevel.value_injective hlevel) hrest⟩
  · intro h
    obtain ⟨huser, hcompany, hslot⟩ := h
    rw [buildCacheKey_eq, buildCacheKey_eq, huser, hcompany, hslot]

end Keys

/-! ### What the keys hold -/

section Runs

variable {lower : String → String}

theorem lastStored_concat (d : Dataset) (ops : List Op) (op : Op) :
    lastStored d (ops ++ [op]) = (storedBy d op).or (lastStored d ops) := by
  simp [lastStored]

/-- Every key is that of one of the datasets, and holds what was last stored for it. -/
def Stored (lower : String → String) (D : Set Dataset) (ops : List Op) (r : Redis) : Prop :=
  ∀ key payload, r.get? key = some payload →
    ∃ d ∈ D, key = buildCacheKey lower d ∧ lastStored d ops = some payload.data

theorem Stored.erase {D : Set Dataset} {ops : List Op} {r : Redis} (h : Stored lower D ops r) (key : String) :
    Stored lower D ops (r.erase key) := by
  intro k payload hk
  rw [Dict.get?_erase] at hk
  split at hk
  · cases hk
  · exact h k payload hk

/-- Without keys of the old layout a lookup reads the key of the dataset. -/
theorem lookup_of_stored {D : Set Dataset} {ops : List Op} {r : Redis} (h : Stored lower D ops r) (d : Dataset) :
    lookup lower r d = (r, r.get? (buildCacheKey lower d)) := by
  have hlegacy : r.get? (buildLegacyCacheKey d) = none := by
    cases hget : r.get? (buildLegacyCacheKey d) with
    | none => rfl
    | some payload =>
        obtain ⟨d', -, hkey, -⟩ := h _ _ hget
        exact absurd hkey.symm (buildCacheKey_ne_legacy d' d)
  unfold lookup
  cases hget : r.get? (buildCacheKey lower d) with
  | some payload => rfl
  | none => simp [buildCacheKey_ne_legacy, hlegacy]

/-- A read, without keys of the old layout. -/
theorem getCachedData_of_stored {D : Set Dataset} {ops : List Op} {r : Redis} (h : Stored lower D ops r)
    (d : Dataset) : getCachedData lower r d =
      match r.get? (buildCacheKey lower d) with
      | none => (r, none)
      | some payload => if payload.readable then (r, some payload) else (r.erase (buildCacheKey lower d), none) := by
  rw [getCachedData, lookup_of_stored h]
  cases r.get? (buildCacheKey lower d) with
  | none => rfl
  | some payload => rfl

/-- What a read returns is what the key holds. -/
theorem getCachedData_eq_some_iff {D : Set Dataset} {ops : List Op} {r : Redis} (h : Stored lower D ops r)
    {d : Dataset} {payload : Payload} : (getCachedData lower r d).2 = some payload ↔
      r.get? (buildCacheKey lower d) = some payload ∧ payload.readable = true := by
  rw [getCachedData_of_stored h]
  cases hget : r.get? (buildCacheKey lower d) with
  | none => simp
  | some stored =>
      dsimp only
      rw [Option.some.injEq]
      constructor
      · intro h'
        split at h'
        · next hread =>
          obtain rfl : stored = payload := Option.some.inj h'
          exact ⟨rfl, hread⟩
        · cases h'
      · intro h'
        obtain ⟨rfl, hread⟩ := h'
        rw [if_pos hread]

/-- A read keeps the cache, or deletes a key. -/
theorem stored_get {D : Set Dataset} {ops : List Op} {r : Redis} (h : Stored lower D ops r) (d : Dataset) :
    Stored lower D ops (getCachedData lower r d).1 := by
  rw [getCachedData_of_stored h]
  cases r.get? (buildCacheKey lower d) with
  | none => exact h
  | some payload =>
      dsimp only
      split
      · exact h
      · exact h.erase _

/-- A store writes the key of its dataset. -/
theorem stored_set {D : Set Dataset} {ops : List Op} {r : Redis} (h : Stored lower D ops r) {d : Dataset} (hd : d ∈ D)
    (data : Value) (ttlSeconds : Option ℕ) (now : String) :
    Stored lower D (ops ++ [.set d data ttlSeconds now]) (setCachedData lower r d data ttlSeconds now).1 := by
  intro key payload hkey
  cases hdata : storable data with
  | none =>
      have hstored : ∀ d', storedBy d' (.set d data ttlSeconds now) = none := by
        intro d'
        simp [storedBy, hdata]
      rw [setCachedData, hdata] at hkey
      obtain ⟨d', hd', hkey, hlast⟩ := h key payload hkey
      exact ⟨d', hd', hkey, by rw [lastStored_concat, hstored, Option.none_or, hlast]⟩
  | some v =>
      rw [setCachedData, hdata] at hkey
      dsimp only at hkey
      rw [Dict.get?_set] at hkey
      split at hkey
      · next hk =>
        cases hkey
        exact ⟨d, hd, hk, by simp [lastStored_concat, storedBy, hdata, payloadOf]⟩
      · next hk =>
        obtain ⟨d', hd', rfl, hlast⟩ := h key payload hkey
        have hne : d ≠ d' := fun heq => hk (by rw [heq])
        exact ⟨d', hd', rfl, by rw [lastStored_concat, storedBy, if_neg hne, Option.none_or, hlast]⟩

/-- A call that stores nothing. -/
theorem Stored.of_not_set {D : Set Dataset} {ops : List Op} {r : Redis} {op : Op} (h : Stored lower D ops r)
    (hop : ∀ d, storedBy d op = none) : Stored lower D (ops ++ [op]) r := by
  intro key payload hkey
  obtain ⟨d, hd, hk, hlast⟩ := h key payload hkey
  exact ⟨d, hd, hk, by rw [lastStored_concat, hop, Option.none_or, hlast]⟩

/-- **What a key holds was stored by a dataset with that key**. -/
theorem stored_run (lower : String → String) {D : Set Dataset} (ops : List Op) (hops : ∀ op ∈ ops, op.dataset ∈ D) :
    Stored lower D ops (run (apply lower) ∅ ops) := by
  induction ops using List.reverseRecOn with
  | nil => exact fun _ _ h => by cases h
  | append_singleton ops op ih =>
      have hstored := ih fun op hop => hops op (List.mem_append_left _ hop)
      have hop : op.dataset ∈ D := hops op (by simp)
      rw [run_concat]
      cases op with
      | set d data ttlSeconds now => exact stored_set hstored hop data ttlSeconds now
      | get d => exact (stored_get hstored d).of_not_set fun _ => rfl
      | invalidate d => exact ((hstored.erase _).erase _).of_not_set fun _ => rfl

/-- If datasets never mix, no two of them have the same key. -/
theorem injOn_of_neverMixed {D : Set Dataset} (h : ∀ ops, (∀ op ∈ ops, op.dataset ∈ D) → NeverMixed lower ops) :
    Set.InjOn (buildCacheKey lower) D := by
  intro d hd d' hd' hkey
  -- the first dataset is stored, the second one is read
  by_contra hne
  have hread : (getCachedData lower (run (apply lower) ∅ [.set d (.map []) none ""]) d').2 =
      some (payloadOf lower d (.map []) none "") := by
    have hget : ((∅ : Redis).set (buildCacheKey lower d) (payloadOf lower d (.map []) none "")).get?
        (buildCacheKey lower d') = some (payloadOf lower d (.map []) none "") := by
      rw [← hkey, Dict.get?_set_self]
    show (getCachedData lower ((∅ : Redis).set (buildCacheKey lower d) _) d').2 = _
    rw [getCachedData, lookup, hget]
    rfl
  have hlast := h [.set d (.map []) none "", .get d'] (by simp [Op.dataset, hd, hd'])
    [.set d (.map []) none ""] d' (List.prefix_refl _) _ hread
  have hnone : lastStored d' [.set d (.map []) none ""] = none := by
    simp [lastStored, storedBy, hne]
  rw [hnone] at hlast
  cases hlast

/-- **Cached datasets never mix**, in any sequence of calls on the datasets of a set, exactly when no two of them have
the same key. -/
theorem never_mixed_iff (lower : String → String) (D : Set Dataset) :
    (∀ ops, (∀ op ∈ ops, op.dataset ∈ D) → NeverMixed lower ops) ↔ Set.InjOn (buildCacheKey lower) D := by
  constructor
  · exact injOn_of_neverMixed
  · intro hinj ops hops pre d hpre payload hget
    have hmem : ∀ op ∈ pre ++ [.get d], op.dataset ∈ D := fun op hop => hops op (hpre.subset hop)
    have hstored := stored_run lower pre fun op hop => hmem op (List.mem_append_left _ hop)
    obtain ⟨hkey, -⟩ := (getCachedData_eq_some_iff hstored).mp hget
    obtain ⟨d', hd', hsame, hlast⟩ := hstored _ _ hkey
    have hd : d ∈ D := hmem (.get d) (by simp)
    rwa [hinj hd hd' hsame]

end Runs

/-! ### The approval list -/

section Approvals

variable (lower : String → String)

/-- The dataset of the pending approvals of a department. -/
def pendinglist (userId companyId department : String) : Dataset :=
  ⟨userId, companyId, "approval_pendinglist", some department⟩

/-- The documents of a query, with their ids. -/
def withIds (docs : List (String × Document)) : List Value :=
  docs.map fun doc => .map (Dict.setList "id" (Value.text doc.1) doc.2)

/-- `get_approval_pendinglist`; `pending` is what the query of Firestore finds for a department. -/
def getApprovalPendinglist (r : Redis) (pending : String → List (String × Document))
    (userId companyId department now : String) : Redis × Value :=
  let d := pendinglist userId companyId department
  let (r, cached) := getCachedData lower r d
  match cached.filter fun payload => payload.data.truthy with
  | some payload => (r, payload.data)
  | none =>
      let items := Value.list (withIds (pending department))
      if pending department = [] then (r, items)
      else ((setCachedData lower r d items (some 2400) now).1, items)

variable {lower}

/-- **The approval lists of all departments have one key**, unless the table has one for the department. -/
theorem slotOf_pendinglist (hlower : lower "approval_pendinglist" = "approval_pendinglist")
    (userId companyId department : String) :
    slotOf lower (pendinglist userId companyId department) = (.business, "dashboard") := by
  have hresolve : resolveCacheLevel lower "approval_pendinglist" (some department) = (.business, "dashboard") := by
    unfold resolveCacheLevel
    rw [hlower]
    cases hgiven : (given (some department)).map lower with
    | none => rfl
    | some s => simp [legacyToBusinessMap, Dict.getList]
  have hitem : itemOf lower (pendinglist userId companyId department) = none := by
    simp [itemOf, pendinglist, hlower, itemLevelCacheTypes]
  unfold slotOf
  rw [show (pendinglist userId companyId department).dataType = "approval_pendinglist" from rfl,
    show (pendinglist userId companyId department).subType = some department from rfl, hresolve, hitem]
  rfl

end Approvals

/-- The departments with something to approve. -/
def onlyRouter (department : String) : List (String × Document) :=
  if department = "router" then [("a1", [("department", .text "router")])] else []

/-- **The items of another department are returned**: the router's list is read, then that of the bank, which has none;
and datasets mix. -/
theorem other_department :
    (getApprovalPendinglist lower (getApprovalPendinglist lower ∅ onlyRouter "u" "c" "router" "").1 onlyRouter "u" "c"
      "banker" "").2 = .list (withIds (onlyRouter "router")) ∧
    ¬∀ ops, (∀ op ∈ ops, op.dataset.PlainIds) → NeverMixed lower ops := by
  constructor
  · rfl
  · intro h
    have hinj : Set.InjOn (buildCacheKey lower) {d | d.PlainIds} := injOn_of_neverMixed h
    have hplain : ∀ department, (pendinglist "u" "c" department).PlainIds := by
      intro department
      have huser : ':' ∉ "u".toList := by decide
      have hcompany : ':' ∉ "c".toList := by decide
      exact ⟨huser, hcompany⟩
    have hsame : pendinglist "u" "c" "router" = pendinglist "u" "c" "banker" :=
      hinj (hplain "router") (hplain "banker") (by decide)
    exact absurd hsame (by decide)

end Pinnokio.Cache
