import Pinnokio.Cache.UnifiedCache
import Pinnokio.Lib.Glob

/-!
# Invalidation of a module's cache

`invalidate_module_cache` resolves the data type without a sub-type, deletes the key that belongs to that, and deletes
the keys of the old layout by a pattern.  Reading and writing resolve the data type with the sub-type, so their key may
be another one.

* `get?_invalidateModuleCache` — what is left;
* `wiped_cacheKey_iff` — of the keys of datasets, only the one without a sub-type is deleted;
* `not_wiped_of_foreign` — it is not that of another user or company;
* `invalidation_complete_iff` — **the invalidation is complete** exactly when the datasets of the module have that key
  and no other dataset has one of the module's keys.
-/

namespace Pinnokio.Cache

open Pinnokio.Runs Pinnokio.Text

section Patterns

variable (lower : String → String)

/-- The patterns to delete. -/
def patternsOf (userId companyId dataType : String) : List String :=
  (match resolveCacheLevel lower dataType none with
    | (.business, domain) => [buildBusinessKey userId companyId domain none]
    | (.company, domain) => [buildCompanyKey userId companyId domain]
    | (.user, _) => []) ++
  ["cache:" ++ (userId ++ (":" ++ (companyId ++ (":" ++ (dataType ++ ":*")))))]

/-- `pattern.endswith("*")`. -/
def isPattern (pattern : String) : Bool := pattern.toList.getLast? = some '*'

/-- A key that a pattern deletes. -/
def deletes (pattern key : String) : Bool := if isPattern pattern then Glob.isMatch pattern key else pattern = key

/-- The deletion of one pattern: the keys that match it, or the key itself. -/
def deletePattern (r : Redis) (pattern : String) : Redis :=
  if isPattern pattern then (r.keys.filter fun key => Glob.isMatch pattern key).foldl Dict.erase r
  else r.erase pattern

/-- `invalidate_module_cache`. -/
def invalidateModuleCache (r : Redis) (userId companyId dataType : String) : Redis :=
  (patternsOf lower userId companyId dataType).foldl deletePattern r

/-- A key that the invalidation deletes. -/
def wiped (userId companyId dataType key : String) : Bool :=
  (patternsOf lower userId companyId dataType).any fun pattern => deletes pattern key

/-- A call of `set_cached_data`. -/
structure SetCall where
  dataset : Dataset
  data : Value
  ttlSeconds : Option ℕ
  now : String

/-- As a call of the manager. -/
def SetCall.op (x : SetCall) : Op := .set x.dataset x.data x.ttlSeconds x.now

/-- The cache after a sequence of stores. -/
def storeAll (r : Redis) (sets : List SetCall) : Redis := run (apply lower) r (sets.map SetCall.op)

/-- The dataset is one of the module. -/
def Dataset.OfModule (d : Dataset) (userId companyId dataType : String) : Prop :=
  d.userId = userId ∧ d.companyId = companyId ∧ d.dataType = dataType

/-- After any stores of datasets of a set and an invalidation of the module, its datasets are not read until one of
them is stored again, and the entries of other users and companies are as before. -/
def Complete (D : Set Dataset) (userId companyId dataType : String) : Prop :=
  ∀ before after : List SetCall, (∀ x ∈ before, x.dataset ∈ D) →
    (∀ x ∈ after, x.dataset ∈ D ∧ ¬x.dataset.OfModule userId companyId dataType) →
    let invalidated := invalidateModuleCache lower (storeAll lower ∅ before) userId companyId dataType
    (∀ subType, (getCachedData lower (storeAll lower invalidated after) ⟨userId, companyId, dataType, subType⟩).2 =
      none) ∧
    ∀ d ∈ D, d.userId ≠ userId ∨ d.companyId ≠ companyId →
      invalidated.get? (buildCacheKey lower d) = (storeAll lower ∅ before).get? (buildCacheKey lower d)

/-- The invalidation reaches the keys of the module's datasets, and no other dataset uses one of them. -/
structure Covered (D : Set Dataset) (userId companyId dataType : String) : Prop where
  own : ∀ d ∈ D, d.OfModule userId companyId dataType →
    wiped lower userId companyId dataType (buildCacheKey lower d) = true
  others : ∀ d ∈ D, ¬d.OfModule userId companyId dataType → ∀ subType,
    buildCacheKey lower d ≠ buildCacheKey lower ⟨userId, companyId, dataType, subType⟩
  foreign : ∀ d ∈ D, d.userId ≠ userId ∨ d.companyId ≠ companyId →
    wiped lower userId companyId dataType (buildCacheKey lower d) = false

end Patterns

section Reading

variable {lower : String → String} {userId companyId dataType : String}

theorem get?_deletePattern (r : Redis) (pattern key : String) :
    (deletePattern r pattern).get? key = if deletes pattern key then none else r.get? key := by
  unfold deletePattern deletes
  by_cases hp : isPattern pattern = true
  · rw [if_pos hp, if_pos hp, Dict.get?_foldl_erase]
    by_cases hm : Glob.isMatch pattern key = true
    · rw [if_pos hm]
      by_cases hk : key ∈ r.keys
      · rw [if_pos (List.mem_filter.mpr ⟨hk, hm⟩)]
      · rw [Dict.get?_eq_none_iff.mpr hk, ite_self]
    · rw [if_neg hm, if_neg fun h => hm (List.mem_filter.mp h).2]
  · rw [if_neg hp, if_neg hp, Dict.get?_erase]
    simp [eq_comm]

/-- **What the invalidation leaves.** -/
theorem get?_invalidateModuleCache (r : Redis) (key : String) :
    (invalidateModuleCache lower r userId companyId dataType).get? key =
      if wiped lower userId companyId dataType key then none else r.get? key := by
  unfold invalidateModuleCache wiped
  induction patternsOf lower userId companyId dataType generalizing r with
  | nil => rfl
  | cons pattern patterns ih =>
      rw [List.foldl_cons, ih, get?_deletePattern, List.any_cons]
      cases deletes pattern key <;> simp

/-! ### Which keys are deleted -/

/-- Without a sub-type every data type is one of the business level. -/
theorem resolveCacheLevel_none (lower : String → String) (dataType : String) :
    ∃ domain, resolveCacheLevel lower dataType none = (.business, domain) := by
  have htable : ∀ e ∈ legacyToBusinessMap, e.1.2 = none → e.2.1 = CacheLevel.business := by decide
  have hentry : ∀ resolved, Dict.getList (lower dataType, none) legacyToBusinessMap = some resolved →
      resolved.1 = CacheLevel.business := by
    intro resolved h
    have hmem : ((lower dataType, none), resolved) ∈ legacyToBusinessMap :=
      (Dict.getList_eq_some_iff (by decide)).mp h
    exact htable _ hmem rfl
  unfold resolveCacheLevel
  split
  · next resolved h => exact ⟨resolved.2, Prod.ext (hentry _ h) rfl⟩
  · split
    · next resolved h => exact ⟨resolved.2, Prod.ext (hentry _ h) rfl⟩
    · exact ⟨_, rfl⟩

/-- The first pattern is the key without a sub-type. -/
theorem patternsOf_eq (lower : String → String) (userId companyId dataType : String) :
    patternsOf lower userId companyId dataType =
      [buildCacheKey lower ⟨userId, companyId, dataType, none⟩,
        "cache:" ++ (userId ++ (":" ++ (companyId ++ (":" ++ (dataType ++ ":*")))))] := by
  obtain ⟨domain, hdomain⟩ := resolveCacheLevel_none lower dataType
  have hitem : itemOf lower ⟨userId, companyId, dataType, none⟩ = none := by
    simp [itemOf, given]
  unfold patternsOf buildCacheKey
  rw [hitem]
  simp only [hdomain]
  rfl

/-- The pattern of the old layout matches no key of a dataset. -/
theorem not_isMatch_legacy (rest : String) (d : Dataset) :
    Glob.isMatch ("cache:" ++ rest) (buildCacheKey lower d) = false := by
  rw [Bool.eq_false_iff]
  intro h
  have hcache : ("cache:" ++ rest).toList = 'c' :: 'a' :: ("che:" ++ rest).toList := by
    simp [String.toList_append]
  rw [Glob.isMatch, hcache, List.length_cons, List.length_cons] at h
  obtain ⟨key, hkey, h⟩ := Glob.matches_cons_literal (by decide) h
  obtain ⟨key', hkey', -⟩ := Glob.matches_cons_literal (by decide) h
  rw [hkey', buildCacheKey_eq, String.toList_append] at hkey
  cases hslot : (slotOf lower d).1 with
  | user => exact slotOf_ne_user d hslot
  | company => simp [hslot, CacheLevel.value] at hkey
  | business => simp [hslot, CacheLevel.value] at hkey

/-- **Of the keys of datasets** the invalidation deletes the one without a sub-type only. -/
theorem wiped_cacheKey_iff (d : Dataset)
    (hplain : isPattern (buildCacheKey lower ⟨userId, companyId, dataType, none⟩) = false) :
    wiped lower userId companyId dataType (buildCacheKey lower d) = true ↔
      buildCacheKey lower d = buildCacheKey lower ⟨userId, companyId, dataType, none⟩ := by
  have hlegacy : deletes ("cache:" ++ (userId ++ (":" ++ (companyId ++ (":" ++ (dataType ++ ":*"))))))
      (buildCacheKey lower d) = false := by
    have hstar : isPattern ("cache:" ++ (userId ++ (":" ++ (companyId ++ (":" ++ (dataType ++ ":*")))))) = true := by
      have hend : (":*" : String).toList = [':', '*'] := by decide
      rw [isPattern, ← String.append_assoc, ← String.append_assoc, ← String.append_assoc, ← String.append_assoc,
        ← String.append_assoc, String.toList_append, hend, List.getLast?_append]
      rfl
    rw [deletes, if_pos hstar]
    exact not_isMatch_legacy _ d
  rw [wiped, patternsOf_eq, List.any_cons, List.any_cons, List.any_nil, hlegacy, deletes, hplain]
  simp [eq_comm]

/-- Ids without a colon keep the datasets of other users and companies apart from the module. -/
theorem not_wiped_of_foreign {d : Dataset} (hd : d.PlainIds)
    (hids : (Dataset.mk userId companyId dataType none).PlainIds)
    (hplain : isPattern (buildCacheKey lower ⟨userId, companyId, dataType, none⟩) = false)
    (hother : d.userId ≠ userId ∨ d.companyId ≠ companyId) :
    wiped lower userId companyId dataType (buildCacheKey lower d) = false := by
  rw [Bool.eq_false_iff, ne_eq, wiped_cacheKey_iff d hplain, cacheKey_eq_iff hd hids]
  intro h
  obtain ⟨huser, hcompany, -⟩ := h
  rcases hother with hne | hne
  · exact hne huser
  · exact hne hcompany

/-! ### The invalidation is complete -/

/-- Every key is that of one of the datasets. -/
def KeysOf (lower : String → String) (D : Set Dataset) (r : Redis) : Prop :=
  ∀ key, r.get? key ≠ none → ∃ d ∈ D, key = buildCacheKey lower d

/-- A store of one of the datasets keeps that. -/
theorem KeysOf.set {D : Set Dataset} {r : Redis} (h : KeysOf lower D r) (x : SetCall) (hx : x.dataset ∈ D) :
    KeysOf lower D (apply lower r x.op) := by
  intro key hkey
  simp only [SetCall.op, apply, setCachedData] at hkey
  cases hdata : storable x.data with
  | none =>
      rw [hdata] at hkey
      exact h key hkey
  | some v =>
      rw [hdata] at hkey
      dsimp only at hkey
      rw [Dict.get?_set] at hkey
      split at hkey
      · next hk => exact ⟨x.dataset, hx, hk⟩
      · exact h key hkey

theorem KeysOf.storeAll {D : Set Dataset} {r : Redis} (h : KeysOf lower D r) {sets : List SetCall}
    (hsets : ∀ x ∈ sets, x.dataset ∈ D) : KeysOf lower D (storeAll lower r sets) := by
  induction sets generalizing r with
  | nil => exact h
  | cons x sets ih =>
      have hx : x.dataset ∈ D := hsets x (List.mem_cons_self ..)
      exact ih (h.set x hx) fun y hy => hsets y (List.mem_cons_of_mem _ hy)

/-- An invalidation that reaches the datasets of the module leaves the others. -/
theorem KeysOf.invalidate {D : Set Dataset} {r : Redis} (h : KeysOf lower D r)
    (hown : ∀ d ∈ D, d.OfModule userId companyId dataType →
      wiped lower userId companyId dataType (buildCacheKey lower d) = true) :
    KeysOf lower {d | d ∈ D ∧ ¬d.OfModule userId companyId dataType}
      (invalidateModuleCache lower r userId companyId dataType) := by
  intro key hkey
  rw [get?_invalidateModuleCache] at hkey
  split at hkey
  · exact absurd rfl hkey
  · next hkept =>
    obtain ⟨d, hd, rfl⟩ := h key hkey
    exact ⟨d, ⟨hd, fun hof => hkept (hown d hd hof)⟩, rfl⟩

/-- A dataset whose key is none of them is not read. -/
theorem KeysOf.not_read {D : Set Dataset} {r : Redis} (h : KeysOf lower D r) {d : Dataset}
    (hd : ∀ d' ∈ D, buildCacheKey lower d' ≠ buildCacheKey lower d) : (getCachedData lower r d).2 = none := by
  have hkey : r.get? (buildCacheKey lower d) = none := by
    by_contra hget
    obtain ⟨d', hd', heq⟩ := h _ hget
    exact hd d' hd' heq.symm
  have hlegacy : r.get? (buildLegacyCacheKey d) = none := by
    by_contra hget
    obtain ⟨d', -, heq⟩ := h _ hget
    exact buildCacheKey_ne_legacy d' d heq.symm
  unfold getCachedData lookup
  simp [hkey, hlegacy]

/-- A store that can be read. -/
def SetCall.emptyMap (d : Dataset) : SetCall := ⟨d, .map [], none, ""⟩

theorem get?_emptyMap (r : Redis) (d : Dataset) :
    (storeAll lower r [.emptyMap d]).get? (buildCacheKey lower d) = some (payloadOf lower d (.map []) none "") := by
  show (r.set (buildCacheKey lower d) _).get? _ = _
  rw [Dict.get?_set_self]
  rfl

/-- What is under the key of a dataset, if it is not an empty list, is read. -/
theorem getCachedData_of_get? {r : Redis} {d : Dataset} {payload : Payload}
    (h : r.get? (buildCacheKey lower d) = some payload) (hread : payload.readable = true) :
    (getCachedData lower r d).2 = some payload := by
  simp [getCachedData, lookup, h, hread]

/-- A complete invalidation reaches the keys of the module's datasets. -/
theorem own_of_complete {D : Set Dataset} (h : Complete lower D userId companyId dataType) :
    ∀ d ∈ D, d.OfModule userId companyId dataType →
      wiped lower userId companyId dataType (buildCacheKey lower d) = true := by
  -- a dataset of the module that is stored is not read after the invalidation
  intro d hd hof
  obtain ⟨rfl, rfl, rfl⟩ := hof
  obtain ⟨hnone, -⟩ := h [.emptyMap d] [] (by simpa [SetCall.emptyMap] using hd) (by simp)
  by_contra hkept
  have hget : (invalidateModuleCache lower (storeAll lower ∅ [.emptyMap d]) d.userId d.companyId
      d.dataType).get? (buildCacheKey lower d) = some (payloadOf lower d (.map []) none "") := by
    rw [get?_invalidateModuleCache, if_neg hkept, get?_emptyMap]
  have hread := (getCachedData_of_get? hget rfl).symm.trans (hnone d.subType)
  cases hread

/-- **The invalidation is complete** exactly when it reaches the keys of the module's datasets and only them. -/
theorem invalidation_complete_iff (lower : String → String) (D : Set Dataset) (userId companyId dataType : String) :
    Complete lower D userId companyId dataType ↔ Covered lower D userId companyId dataType := by
  constructor
  · intro h
    refine ⟨?_, ?_, ?_⟩
    · exact own_of_complete h
    · -- another dataset that is stored afterwards is not read as one of the module
      intro d hd hof subType hsame
      obtain ⟨hnone, -⟩ := h [] [.emptyMap d] (by simp) (by simpa [SetCall.emptyMap] using ⟨hd, hof⟩)
      have hget : (storeAll lower (invalidateModuleCache lower (storeAll lower ∅ []) userId companyId dataType)
          [.emptyMap d]).get? (buildCacheKey lower ⟨userId, companyId, dataType, subType⟩) =
            some (payloadOf lower d (.map []) none "") := by
        rw [← hsame, get?_emptyMap]
      have hread := (getCachedData_of_get? hget rfl).symm.trans (hnone subType)
      cases hread
    · -- the entry of another user or company is left
      intro d hd hother
      obtain ⟨-, hkept⟩ := h [.emptyMap d] [] (by simpa [SetCall.emptyMap] using hd) (by simp)
      have hsame := hkept d hd hother
      rw [get?_invalidateModuleCache, get?_emptyMap] at hsame
      rw [Bool.eq_false_iff]
      intro hwiped
      rw [if_pos hwiped] at hsame
      cases hsame
  · intro h before after hbefore hafter
    have hstored : KeysOf lower D (storeAll lower ∅ before) := by
      have hempty : KeysOf lower D ∅ := fun key hkey => absurd (Dict.get?_empty key) hkey
      exact hempty.storeAll hbefore
    constructor
    · intro subType
      refine ((hstored.invalidate h.own).storeAll hafter).not_read fun d hd => ?_
      exact h.others d hd.1 hd.2 subType
    · intro d hd hother
      rw [get?_invalidateModuleCache, if_neg]
      rw [h.foreign d hd hother]
      exact Bool.false_ne_true

end Reading

/-- **Documents of the drive survive** the invalidation of the module `drive`. -/
theorem drive_documents_survive :
    let stored := storeAll lower ∅ [⟨⟨"u", "c", "drive", some "documents"⟩, .map [], none, ""⟩]
    (getCachedData lower (invalidateModuleCache lower stored "u" "c" "drive")
      ⟨"u", "c", "drive", some "documents"⟩).2.isSome ∧
    ¬∀ userId companyId dataType, Complete lower Set.univ userId companyId dataType := by
  constructor
  · rfl
  · intro h
    have hwiped := own_of_complete (h "u" "c" "drive") ⟨"u", "c", "drive", some "documents"⟩ trivial ⟨rfl, rfl, rfl⟩
    exact absurd hwiped (by decide)

end Pinnokio.Cache
