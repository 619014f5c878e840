import Mathlib.Data.List.Dedup
import Mathlib.Data.List.Nodup
import Mathlib.Data.List.Basic
import Mathlib.Tactic.Common

/-!
# Insertion-ordered dictionaries

A dictionary that keeps its keys in the order of first insertion: writing an existing key replaces its
value in place, writing a new key appends it, deleting a key closes the gap.  This is the contract of a
scripting-language `dict`, and of the documents of a collection in a document store.

The uniqueness of keys is a field of the structure, so no operation has to re-establish it for its caller:

* `get?_set`, `get?_erase`, `get?_modify`, `get?_tabulate` — the read-over-write laws;
* `ofList_eq_iff` — which entries make the same dictionary;
* `mem_entries_iff` — an entry is present exactly when its key reads as its value;
* `countV_set_le`, `countV_erase_add`, `countV_modify` — how a write changes the number of values with a
  property.
-/

namespace Pinnokio

/-- Association list with pairwise distinct keys, in insertion order. -/
structure Dict (K V : Type*) where
  entries : List (K × V)
  nodup : (entries.map Prod.fst).Nodup

namespace Dict

variable {K V : Type*}

/-- The empty dictionary. -/
def empty : Dict K V := ⟨[], List.nodup_nil⟩

instance : EmptyCollection (Dict K V) := ⟨empty⟩

/-- Keys in insertion order. -/
def keys (d : Dict K V) : List K := d.entries.map Prod.fst

/-- A dictionary is empty when it has no entry. -/
def isEmpty (d : Dict K V) : Bool := d.entries.isEmpty

/-- The number of values with a property. -/
def countV (d : Dict K V) (p : V → Bool) : ℕ := d.entries.countP fun e => p e.2

@[simp] theorem entries_empty : (∅ : Dict K V).entries = [] := rfl

@[simp] theorem keys_empty : (∅ : Dict K V).keys = [] := rfl

theorem isEmpty_iff {d : Dict K V} : d.isEmpty = true ↔ ∀ k, k ∉ d.keys := by
  rw [isEmpty, List.isEmpty_iff]
  constructor
  · intro h k
    simp [keys, h]
  · intro h
    rw [List.eq_nil_iff_forall_not_mem]
    intro e he
    exact h e.1 (List.mem_map_of_mem (f := Prod.fst) he)

theorem isEmpty_eq_false_of_mem {d : Dict K V} {k : K} (h : k ∈ d.keys) : d.isEmpty = false := by
  rw [← Bool.not_eq_true]
  exact fun he => isEmpty_iff.mp he k h

instance [DecidableEq K] [DecidableEq V] : DecidableEq (Dict K V) := fun d d' =>
  decidable_of_iff (d.entries = d'.entries) ⟨fun h => by cases d; cases d'; cases h; rfl, fun h => h ▸ rfl⟩

variable [DecidableEq K]

/-! ### Operations on raw entry lists -/

/-- Replace the value of `k` in place, or append a new entry. -/
def setList (k : K) (v : V) : List (K × V) → List (K × V)
  | [] => [(k, v)]
  | e :: es => if e.1 = k then (k, v) :: es else e :: setList k v es

/-- First value stored under `k`. -/
def getList (k : K) : List (K × V) → Option V
  | [] => none
  | e :: es => if e.1 = k then some e.2 else getList k es

theorem mem_keys_setList (k k' : K) (v : V) (es : List (K × V)) :
    k' ∈ (setList k v es).map Prod.fst ↔ k' = k ∨ k' ∈ es.map Prod.fst := by
  induction es with
  | nil => simp [setList]
  | cons e es ih =>
      by_cases h : e.1 = k
      · simp [setList, h]
      · simp only [setList, h, if_false, List.map_cons, List.mem_cons, ih]
        tauto

theorem mem_setList {k : K} {v : V} {e : K × V} {es : List (K × V)} (h : e ∈ setList k v es) :
    e = (k, v) ∨ e ∈ es := by
  induction es with
  | nil => exact Or.inl (List.mem_singleton.mp h)
  | cons e' es ih =>
      rw [setList] at h
      split at h
      · exact (List.mem_cons.mp h).imp id (List.mem_cons_of_mem _)
      · rcases List.mem_cons.mp h with rfl | h
        · exact Or.inr List.mem_cons_self
        · exact (ih h).imp id (List.mem_cons_of_mem _)

theorem nodup_setList (k : K) (v : V) (es : List (K × V)) (h : (es.map Prod.fst).Nodup) :
    ((setList k v es).map Prod.fst).Nodup := by
  induction es with
  | nil => simp [setList]
  | cons e es ih =>
      rw [List.map_cons, List.nodup_cons] at h
      by_cases hk : e.1 = k
      · simp only [setList, hk, if_true, List.map_cons, List.nodup_cons]
        exact ⟨hk ▸ h.1, h.2⟩
      · simp only [setList, hk, if_false, List.map_cons, List.nodup_cons]
        refine ⟨?_, ih h.2⟩
        rw [mem_keys_setList]
        exact not_or.mpr ⟨hk, h.1⟩

/-! ### The dictionary operations -/

/-- Read a key. -/
def get? (d : Dict K V) (k : K) : Option V := getList k d.entries

/-- Write a key. -/
def set (d : Dict K V) (k : K) (v : V) : Dict K V :=
  ⟨setList k v d.entries, nodup_setList k v d.entries d.nodup⟩

/-- Delete a key; deleting an absent key changes nothing. -/
def erase (d : Dict K V) (k : K) : Dict K V :=
  ⟨d.entries.filter fun e => e.1 ≠ k,
    d.nodup.sublist (List.filter_sublist.map Prod.fst)⟩

/-- Change the value of a key that is present; an absent key stays absent. -/
def modify (d : Dict K V) (k : K) (f : V → V) : Dict K V :=
  ⟨d.entries.map fun e => if e.1 = k then (e.1, f e.2) else e, by
    have hk : (d.entries.map fun e => if e.1 = k then (e.1, f e.2) else e).map Prod.fst
        = d.entries.map Prod.fst := by
      rw [List.map_map]
      refine List.map_congr_left fun e _ => ?_
      by_cases he : e.1 = k <;> simp [he]
    rw [hk]
    exact d.nodup⟩

/-- Change the values of several keys. -/
def modifyAll (d : Dict K V) (ks : List K) (f : V → V) : Dict K V :=
  ks.foldl (fun d k => d.modify k f) d

/-- Change the value at every key. -/
def mapValues (d : Dict K V) (f : V → V) : Dict K V :=
  ⟨d.entries.map fun e => (e.1, f e.2), by
    rw [List.map_map]
    exact d.nodup⟩

/-- Write the entries one after another. -/
def setAll (d : Dict K V) (es : List (K × V)) : Dict K V := es.foldl (fun d e => d.set e.1 e.2) d

/-- Build a dictionary by writing the entries one after another. -/
def ofList (es : List (K × V)) : Dict K V := es.foldl (fun d e => d.set e.1 e.2) empty

/-- The keys `ks` with the values `f` has for them. -/
def tabulate (ks : List K) (f : K → Option V) : Dict K V :=
  ⟨ks.dedup.filterMap fun k => (f k).map (Prod.mk k), by
    have hk : (ks.dedup.filterMap fun k => (f k).map (Prod.mk k)).map Prod.fst =
        ks.dedup.filter fun k => (f k).isSome := by
      induction ks.dedup with
      | nil => rfl
      | cons k ks ih => cases hf : f k <;> simp [hf, ih]
    rw [hk]
    exact ks.nodup_dedup.filter _⟩

/-! ### Reading -/

@[simp] theorem get?_empty (k : K) : (∅ : Dict K V).get? k = none := rfl

theorem getList_eq_some_iff {k : K} {v : V} {es : List (K × V)} (h : (es.map Prod.fst).Nodup) :
    getList k es = some v ↔ (k, v) ∈ es := by
  induction es with
  | nil => simp [getList]
  | cons e es ih =>
      rw [List.map_cons, List.nodup_cons] at h
      obtain ⟨k', v'⟩ := e
      by_cases hk : k' = k
      · subst hk
        have hv : (k', v) ∉ es := fun hm => h.1 (List.mem_map.mpr ⟨(k', v), hm, rfl⟩)
        simp [getList, hv, eq_comm]
      · simp [getList, hk, ih h.2, Ne.symm hk]

theorem mem_of_getList {k : K} {v : V} {es : List (K × V)} (h : getList k es = some v) : (k, v) ∈ es := by
  induction es with
  | nil => cases h
  | cons e es ih =>
      rw [getList] at h
      split at h
      · next hk =>
          cases h
          rw [← hk]
          exact List.mem_cons_self
      · exact List.mem_cons_of_mem e (ih h)

theorem getList_eq_none_iff {k : K} {es : List (K × V)} :
    getList k es = none ↔ k ∉ es.map Prod.fst := by
  induction es with
  | nil => simp [getList]
  | cons e es ih =>
      by_cases hk : e.1 = k
      · simp [getList, hk]
      · simp only [getList, hk, if_false, ih, List.map_cons, List.mem_cons, not_or]
        exact ⟨fun h => ⟨Ne.symm hk, h⟩, fun h => h.2⟩

/-- An entry is stored exactly when its key reads as its value. -/
theorem mem_entries_iff {d : Dict K V} {k : K} {v : V} : (k, v) ∈ d.entries ↔ d.get? k = some v :=
  (getList_eq_some_iff d.nodup).symm

theorem get?_tabulate (ks : List K) (f : K → Option V) (k : K) :
    (tabulate ks f).get? k = if k ∈ ks then f k else none := by
  ext v
  rw [← mem_entries_iff]
  simp only [tabulate, List.mem_filterMap, List.mem_dedup, Option.map_eq_some_iff, Prod.mk.injEq]
  constructor
  · intro h
    obtain ⟨k, hk, v, hv, rfl, rfl⟩ := h
    rw [if_pos hk, hv]
  · intro h
    split at h
    · next hk => exact ⟨k, hk, v, h, rfl, rfl⟩
    · cases h

theorem get?_eq_none_iff {d : Dict K V} {k : K} : d.get? k = none ↔ k ∉ d.keys :=
  getList_eq_none_iff

theorem mem_keys_iff {d : Dict K V} {k : K} : k ∈ d.keys ↔ ∃ v, d.get? k = some v := by
  rw [← Option.ne_none_iff_exists', ne_eq, get?_eq_none_iff, not_not]

theorem mem_keys_of_get? {d : Dict K V} {k : K} {v : V} (h : d.get? k = some v) : k ∈ d.keys :=
  mem_keys_iff.mpr ⟨v, h⟩

/-! ### Read over write -/

theorem getList_setList (k k' : K) (v : V) (es : List (K × V)) :
    getList k' (setList k v es) = if k' = k then some v else getList k' es := by
  induction es with
  | nil => simp [setList, getList, eq_comm]
  | cons e es ih =>
      by_cases he : e.1 = k
      · by_cases h : k' = k
        · simp [setList, getList, he, h]
        · simp [setList, getList, he, h, Ne.symm h]
      · by_cases h : k' = k
        · subst h
          simp [setList, getList, he, ih]
        · simp [setList, getList, he, ih, h]

theorem get?_set (d : Dict K V) (k k' : K) (v : V) :
    (d.set k v).get? k' = if k' = k then some v else d.get? k' :=
  getList_setList k k' v d.entries

theorem getList_map_values {W : Type*} (f : V → W) (k : K) (es : List (K × V)) :
    getList k (es.map fun e => (e.1, f e.2)) = (getList k es).map f := by
  induction es with
  | nil => rfl
  | cons e es ih =>
      simp only [List.map_cons, getList, ih]
      split <;> rfl

theorem setList_map_values {W : Type*} (f : V → W) (k : K) (v : V) (es : List (K × V)) :
    setList k (f v) (es.map fun e => (e.1, f e.2)) = (setList k v es).map fun e => (e.1, f e.2) := by
  induction es with
  | nil => rfl
  | cons e es ih =>
      rw [List.map_cons, setList, setList]
      split
      · rfl
      · rw [ih, List.map_cons]

theorem get?_mapValues (d : Dict K V) (f : V → V) (k : K) : (d.mapValues f).get? k = (d.get? k).map f :=
  getList_map_values f k d.entries

omit [DecidableEq K] in
theorem mapValues_eq_self {d : Dict K V} {f : V → V} (h : ∀ e ∈ d.entries, f e.2 = e.2) : d.mapValues f = d := by
  have hmap : d.entries.map (fun e => (e.1, f e.2)) = d.entries := by
    conv_rhs => rw [← List.map_id d.entries]
    exact List.map_congr_left fun e he => Prod.ext rfl (h e he)
  unfold mapValues
  congr 1

theorem setAll_append (d : Dict K V) (es es' : List (K × V)) :
    d.setAll (es ++ es') = (d.setAll es).setAll es' :=
  List.foldl_append

/-- Entries with distinct keys are all there, over those of before. -/
theorem get?_setAll (d : Dict K V) {es : List (K × V)} (hn : (es.map Prod.fst).Nodup) (k : K) :
    (d.setAll es).get? k = (getList k es).or (d.get? k) := by
  induction es generalizing d with
  | nil => rfl
  | cons e es ih =>
      rw [List.map_cons, List.nodup_cons] at hn
      show ((d.set e.1 e.2).setAll es).get? k = _
      rw [ih _ hn.2, get?_set, getList]
      by_cases hk : e.1 = k
      · have hlater : getList k es = none := getList_eq_none_iff.mpr (hk ▸ hn.1)
        simp [hk, hlater]
      · simp [hk, Ne.symm hk]

theorem setList_of_getList {k : K} {v : V} {es : List (K × V)} (h : getList k es = some v) : setList k v es = es := by
  induction es with
  | nil => cases h
  | cons e es ih =>
      rw [getList] at h
      rw [setList]
      split at h
      · next hk =>
        rw [if_pos hk, ← hk, ← Option.some.inj h]
      · next hk =>
        rw [if_neg hk, ih h]

/-- The value that a key has is written. -/
theorem set_of_get? {d : Dict K V} {k : K} {v : V} (h : d.get? k = some v) : d.set k v = d := by
  cases d
  simp only [set]
  congr
  exact setList_of_getList h

theorem setList_setList (k : K) (v w : V) (es : List (K × V)) : setList k v (setList k w es) = setList k v es := by
  induction es with
  | nil => simp [setList]
  | cons e es ih =>
      by_cases h : e.1 = k
      · simp [setList, h]
      · simp only [setList, h, if_false, ih]

/-- A key is written twice. -/
theorem set_set (d : Dict K V) (k : K) (v w : V) : (d.set k w).set k v = d.set k v := by
  simp only [set, setList_setList]

theorem setList_comm {k k' : K} (hne : k ≠ k') {es : List (K × V)} (hk : k ∈ es.map Prod.fst) (v v' : V) :
    setList k v (setList k' v' es) = setList k' v' (setList k v es) := by
  induction es with
  | nil => cases hk
  | cons e es ih =>
      by_cases h : e.1 = k
      · subst h
        simp [setList, hne]
      · have hrest : k ∈ es.map Prod.fst := (List.mem_cons.mp hk).resolve_left fun heq => h heq.symm
        by_cases h' : e.1 = k'
        · simp [setList, h', Ne.symm hne]
        · simp [setList, h, h', ih hrest]

/-- A key that is present is written before or after another one. -/
theorem set_comm {d : Dict K V} {k k' : K} (hne : k ≠ k') (hk : k ∈ d.keys) (v v' : V) :
    (d.set k' v').set k v = (d.set k v).set k' v' := by
  simp only [set, setList_comm hne hk]

/-- Writing what is there already. -/
theorem setAll_of_get? {d : Dict K V} {es : List (K × V)} (h : ∀ e ∈ es, d.get? e.1 = some e.2) : d.setAll es = d := by
  induction es with
  | nil => rfl
  | cons e es ih =>
      show (d.set e.1 e.2).setAll es = d
      rw [set_of_get? (h e List.mem_cons_self)]
      exact ih fun e' he' => h e' (List.mem_cons_of_mem _ he')

@[simp] theorem get?_set_self (d : Dict K V) (k : K) (v : V) : (d.set k v).get? k = some v := by
  simp [get?_set]

theorem get?_set_ne (d : Dict K V) {k k' : K} (v : V) (h : k' ≠ k) :
    (d.set k v).get? k' = d.get? k' := by
  simp [get?_set, h]

theorem get?_erase (d : Dict K V) (k k' : K) :
    (d.erase k).get? k' = if k' = k then none else d.get? k' := by
  by_cases h : k' = k
  · simp only [h, if_true]
    rw [get?_eq_none_iff]
    simp [keys, erase]
  · simp only [h, if_false]
    refine Option.ext fun v => ?_
    rw [← mem_entries_iff, ← mem_entries_iff]
    simp [erase, h]

@[simp] theorem get?_erase_self (d : Dict K V) (k : K) : (d.erase k).get? k = none := by
  simp [get?_erase]

/-- An absent key is deleted. -/
theorem erase_of_get?_none {d : Dict K V} {k : K} (h : d.get? k = none) : d.erase k = d := by
  have hentries : d.entries.filter (fun e => e.1 ≠ k) = d.entries := by
    refine List.filter_eq_self.mpr fun e he => ?_
    have hne : e.1 ≠ k := by
      rintro rfl
      exact get?_eq_none_iff.mp h (List.mem_map_of_mem he)
    exact decide_eq_true hne
  cases d
  simp only [erase] at hentries ⊢
  congr

/-- Several keys are deleted. -/
theorem get?_foldl_erase (d : Dict K V) (ks : List K) (k : K) :
    (ks.foldl erase d).get? k = if k ∈ ks then none else d.get? k := by
  induction ks generalizing d with
  | nil => rfl
  | cons x ks ih =>
      rw [List.foldl_cons, ih, get?_erase]
      by_cases hx : k = x
      · simp [hx]
      · simp [hx]

theorem getList_map_modify (k k' : K) (f : V → V) (es : List (K × V)) :
    getList k' (es.map fun e => if e.1 = k then (e.1, f e.2) else e) =
      if k' = k then (getList k' es).map f else getList k' es := by
  induction es with
  | nil => simp [getList]
  | cons e es ih =>
      rw [List.map_cons, getList, getList]
      by_cases he : e.1 = k
      · by_cases h : k' = k
        · simp [he, h]
        · simpa [he, h, Ne.symm h] using ih
      · by_cases h : e.1 = k'
        · have hk : k' ≠ k := fun hk => he (h.trans hk)
          simp [h, hk]
        · simpa [he, h] using ih

theorem get?_modify (d : Dict K V) (k k' : K) (f : V → V) :
    (d.modify k f).get? k' = if k' = k then (d.get? k').map f else d.get? k' :=
  getList_map_modify k k' f d.entries

/-- A change that can be repeated reaches exactly the listed keys. -/
theorem get?_modifyAll (d : Dict K V) (ks : List K) (f : V → V) (hf : ∀ v, f (f v) = f v) (k : K) :
    (d.modifyAll ks f).get? k = if k ∈ ks then (d.get? k).map f else d.get? k := by
  induction ks generalizing d with
  | nil => simp [modifyAll]
  | cons x ks ih =>
      show ((d.modify x f).modifyAll ks f).get? k = _
      rw [ih, get?_modify]
      by_cases hx : k = x
      · subst hx
        by_cases hk : k ∈ ks <;> simp [hk, hf, Function.comp_def]
      · by_cases hk : k ∈ ks <;> simp [hx, hk]

theorem entries_modifyAll (d : Dict K V) (ks : List K) (f : V → V) (hf : ∀ v, f (f v) = f v) :
    (d.modifyAll ks f).entries = d.entries.map fun e => if e.1 ∈ ks then (e.1, f e.2) else e := by
  induction ks generalizing d with
  | nil => simp [modifyAll]
  | cons x ks ih =>
      show ((d.modify x f).modifyAll ks f).entries = _
      rw [ih, modify, List.map_map]
      refine List.map_congr_left fun e _ => ?_
      by_cases hx : e.1 = x
      · by_cases hk : x ∈ ks <;> simp [hx, hk, hf]
      · by_cases hk : e.1 ∈ ks <;> simp [hx, hk]

/-! ### Keys and emptiness after a write -/

theorem mem_keys_set {d : Dict K V} {k k' : K} {v : V} :
    k' ∈ (d.set k v).keys ↔ k' = k ∨ k' ∈ d.keys :=
  mem_keys_setList k k' v d.entries

theorem mem_keys_erase {d : Dict K V} {k k' : K} : k' ∈ (d.erase k).keys ↔ k' ≠ k ∧ k' ∈ d.keys := by
  rw [mem_keys_iff, mem_keys_iff, get?_erase]
  by_cases h : k' = k <;> simp [h]

theorem keys_modify (d : Dict K V) (k : K) (f : V → V) : (d.modify k f).keys = d.keys := by
  simp only [keys, modify, List.map_map]
  refine List.map_congr_left fun e _ => ?_
  by_cases he : e.1 = k <;> simp [he]

theorem keys_modifyAll (d : Dict K V) (ks : List K) (f : V → V) : (d.modifyAll ks f).keys = d.keys := by
  induction ks generalizing d with
  | nil => rfl
  | cons x ks ih =>
      show ((d.modify x f).modifyAll ks f).keys = _
      rw [ih, keys_modify]

theorem setList_of_not_mem {k : K} {v : V} {es : List (K × V)} (h : k ∉ es.map Prod.fst) :
    setList k v es = es ++ [(k, v)] := by
  induction es with
  | nil => rfl
  | cons e es ih =>
      rw [List.map_cons, List.mem_cons, not_or] at h
      rw [setList, if_neg (Ne.symm h.1), ih h.2, List.cons_append]

/-- A new key goes to the end. -/
theorem entries_set_of_not_mem {d : Dict K V} {k : K} (v : V) (h : k ∉ d.keys) :
    (d.set k v).entries = d.entries ++ [(k, v)] :=
  setList_of_not_mem h

/-- Writing a value that does not count, over one that does not count or none, leaves the values that do. -/
theorem filter_values_setList {p : V → Bool} {k : K} {v : V} (hv : p v = false) {es : List (K × V)}
    (hold : ∀ v', getList k es = some v' → p v' = false) :
    ((setList k v es).map Prod.snd).filter p = (es.map Prod.snd).filter p := by
  induction es with
  | nil => simp [setList, hv]
  | cons e es ih =>
      by_cases hk : e.1 = k
      · have he : p e.2 = false := hold e.2 (by simp [getList, hk])
        simp [setList, hk, hv, he]
      · have hrest := ih fun v' h => hold v' (by simpa [getList, hk] using h)
        simp only [setList, hk, if_false, List.map_cons, List.filter_cons, hrest]

theorem filter_values_set {d : Dict K V} {p : V → Bool} {k : K} {v : V} (hv : p v = false)
    (hold : ∀ v', d.get? k = some v' → p v' = false) :
    ((d.set k v).entries.map Prod.snd).filter p = (d.entries.map Prod.snd).filter p :=
  filter_values_setList hv hold

omit [DecidableEq K] in
/-- Entries whose value has none are left out. -/
theorem keys_filterMap_sublist {W : Type*} (f : V → Option W) (es : List (K × V)) :
    ((es.filterMap fun e => (f e.2).map (Prod.mk e.1)).map Prod.fst).Sublist (es.map Prod.fst) := by
  induction es with
  | nil => exact List.Sublist.refl _
  | cons e es ih =>
      rw [List.filterMap_cons]
      cases f e.2 with
      | none => exact ih.cons _
      | some w => exact ih.cons_cons _

/-! ### Dictionaries from entries -/

/-- The last value among entries. -/
def lastOf (k : K) : List (K × V) → Option V
  | [] => none
  | e :: es => (lastOf k es).or (if e.1 = k then some e.2 else none)

theorem lastOf_eq_none_iff {k : K} {es : List (K × V)} : lastOf k es = none ↔ k ∉ es.map Prod.fst := by
  induction es with
  | nil => simp [lastOf]
  | cons e es ih =>
      rw [lastOf, Option.or_eq_none_iff, ih, List.map_cons, List.mem_cons, not_or]
      by_cases hk : e.1 = k
      · simp [hk]
      · simp [hk, Ne.symm hk]

/-- Of entries with one key the last is kept. -/
theorem get?_foldl_set (d : Dict K V) (es : List (K × V)) (k : K) :
    (es.foldl (fun d e => d.set e.1 e.2) d).get? k = (lastOf k es).or (d.get? k) := by
  induction es generalizing d with
  | nil => rfl
  | cons e es ih =>
      rw [List.foldl_cons, ih, get?_set, lastOf]
      by_cases hk : e.1 = k
      · rw [if_pos hk.symm, if_pos hk]
        cases lastOf k es <;> rfl
      · rw [if_neg (Ne.symm hk), if_neg hk, Option.or_none]

theorem get?_ofList (es : List (K × V)) (k : K) : (ofList es).get? k = lastOf k es := by
  have h := get?_foldl_set empty es k
  rw [show (empty : Dict K V).get? k = none from rfl, Option.or_none] at h
  exact h

theorem mem_of_lastOf {k : K} {v : V} {es : List (K × V)} (h : lastOf k es = some v) : (k, v) ∈ es := by
  induction es with
  | nil => cases h
  | cons e es ih =>
      rw [lastOf] at h
      cases hlater : lastOf k es with
      | some w =>
          rw [hlater, Option.some_or] at h
          exact List.mem_cons_of_mem _ (ih (hlater.trans h))
      | none =>
          rw [hlater, Option.none_or] at h
          split at h
          · next hk =>
            cases h
            exact List.mem_cons.mpr (Or.inl (by rw [← hk]))
          · cases h

theorem mem_of_mem_ofList {e : K × V} {es : List (K × V)} (h : e ∈ (ofList es).entries) : e ∈ es := by
  obtain ⟨k, v⟩ := e
  rw [mem_entries_iff, get?_ofList] at h
  exact mem_of_lastOf h

theorem map_fst_setList {W : Type*} (k : K) (v : V) (w : W) {es : List (K × V)} {es' : List (K × W)}
    (h : es.map Prod.fst = es'.map Prod.fst) :
    (setList k v es).map Prod.fst = (setList k w es').map Prod.fst := by
  induction es generalizing es' with
  | nil =>
      cases es' with
      | nil => rfl
      | cons e' es' => cases h
  | cons e es ih =>
      cases es' with
      | nil => cases h
      | cons e' es' =>
          rw [List.map_cons, List.map_cons, List.cons.injEq] at h
          rw [setList, setList, ← h.1]
          split
          · rw [List.map_cons, List.map_cons, h.2]
          · rw [List.map_cons, List.map_cons, h.1, ih h.2]

/-- Which keys there are, and in which order, is a matter of the keys alone. -/
theorem keys_ofList_congr {es es' : List (K × V)} (h : es.map Prod.fst = es'.map Prod.fst) :
    (ofList es).keys = (ofList es').keys := by
  have hfold : ∀ (es es' : List (K × V)) (d d' : Dict K V), es.map Prod.fst = es'.map Prod.fst → d.keys = d'.keys →
      (es.foldl (fun d e => d.set e.1 e.2) d).keys = (es'.foldl (fun d e => d.set e.1 e.2) d').keys := by
    intro es
    induction es with
    | nil =>
        intro es' d d' h hd
        cases es' with
        | nil => exact hd
        | cons e' es' => cases h
    | cons e es ih =>
        intro es' d d' h hd
        cases es' with
        | nil => cases h
        | cons e' es' =>
            rw [List.map_cons, List.map_cons, List.cons.injEq] at h
            refine ih es' _ _ h.2 ?_
            show (setList e.1 e.2 d.entries).map Prod.fst = (setList e'.1 e'.2 d'.entries).map Prod.fst
            rw [← h.1]
            exact map_fst_setList e.1 e.2 e'.2 hd
  exact hfold es es' empty empty h rfl

theorem entries_ext {es es' : List (K × V)} (hkeys : es.map Prod.fst = es'.map Prod.fst)
    (hn : (es.map Prod.fst).Nodup) (hget : ∀ k, getList k es = getList k es') : es = es' := by
  induction es generalizing es' with
  | nil =>
      cases es' with
      | nil => rfl
      | cons e' es' => cases hkeys
  | cons e es ih =>
      cases es' with
      | nil => cases hkeys
      | cons e' es' =>
          rw [List.map_cons, List.map_cons, List.cons.injEq] at hkeys
          rw [List.map_cons, List.nodup_cons] at hn
          have hfirst := hget e.1
          rw [getList, getList, if_pos rfl, if_pos hkeys.1.symm] at hfirst
          have hrest : ∀ k, getList k es = getList k es' := by
            intro k
            by_cases hk : e.1 = k
            · have hnone : getList k es = none := getList_eq_none_iff.mpr (hk ▸ hn.1)
              have hnone' : getList k es' = none := getList_eq_none_iff.mpr (hkeys.2 ▸ hk ▸ hn.1)
              rw [hnone, hnone']
            · have h := hget k
              rwa [getList, getList, if_neg hk, if_neg (hkeys.1 ▸ hk)] at h
          rw [ih hkeys.2 hn.2 hrest, Prod.ext hkeys.1 (Option.some.inj hfirst)]

/-- **Entries with the same keys** make the same dictionary exactly when the last values agree. -/
theorem ofList_eq_iff {es es' : List (K × V)} (h : es.map Prod.fst = es'.map Prod.fst) :
    (ofList es).entries = (ofList es').entries ↔ ∀ k, lastOf k es = lastOf k es' := by
  constructor
  · intro heq k
    rw [← get?_ofList, ← get?_ofList, get?, get?, heq]
  · intro hlast
    refine entries_ext (keys_ofList_congr h) (ofList es).nodup fun k => ?_
    have hget := hlast k
    rwa [← get?_ofList, ← get?_ofList] at hget

/-- Entries with distinct keys are the dictionary. -/
theorem entries_ofList {es : List (K × V)} (hn : (es.map Prod.fst).Nodup) : (ofList es).entries = es := by
  have hfold : ∀ (es : List (K × V)) (d : Dict K V), (d.keys ++ es.map Prod.fst).Nodup →
      (es.foldl (fun d e => d.set e.1 e.2) d).entries = d.entries ++ es := by
    intro es
    induction es with
    | nil => exact fun d _ => (List.append_nil _).symm
    | cons e es ih =>
        intro d hn
        have hnew : e.1 ∉ d.keys := by
          intro hmem
          exact (List.nodup_append.mp hn).2.2 e.1 hmem e.1 (by simp) rfl
        have hset : (d.set e.1 e.2).entries = d.entries ++ [e] := entries_set_of_not_mem e.2 hnew
        rw [List.foldl_cons, ih, hset, List.append_assoc, List.singleton_append]
        rw [keys, hset, List.map_append, List.append_assoc]
        exact hn
  exact hfold es empty hn

theorem ofList_entries (d : Dict K V) : ofList d.entries = d := by
  have hentries := entries_ofList d.nodup
  cases h : ofList d.entries
  rw [h] at hentries
  cases d
  cases hentries
  rfl

/-! ### Counting values -/

theorem countP_setList_le (p : V → Bool) (k : K) (v : V) (es : List (K × V)) :
    (setList k v es).countP (fun e => p e.2) ≤
      es.countP (fun e => p e.2) + if p v then 1 else 0 := by
  induction es with
  | nil => by_cases h : p v <;> simp [setList, h]
  | cons e es ih =>
      by_cases he : e.1 = k
      · simp only [setList, he, if_true, List.countP_cons]
        omega
      · simp only [setList, he, if_false, List.countP_cons]
        omega

/-- A write adds at most its own value to a count. -/
theorem countV_set_le (d : Dict K V) (p : V → Bool) (k : K) (v : V) :
    (d.set k v).countV p ≤ d.countV p + if p v then 1 else 0 :=
  countP_setList_le p k v d.entries

theorem countV_erase_le (d : Dict K V) (p : V → Bool) (k : K) : (d.erase k).countV p ≤ d.countV p :=
  List.filter_sublist.countP_le

/-- Deleting an entry that counts lowers the count by one. -/
theorem countV_erase_add {d : Dict K V} {p : V → Bool} {k : K} {v : V} (hk : d.get? k = some v)
    (hp : p v = true) : (d.erase k).countV p + 1 ≤ d.countV p := by
  have hm : (k, v) ∈ d.entries := mem_entries_iff.mpr hk
  have hlen : 0 < (d.entries.filter fun e => decide (e.1 = k)).countP fun e => p e.2 := by
    rw [List.countP_pos_iff]
    exact ⟨(k, v), by simp [hm], hp⟩
  have hsplit := List.countP_eq_countP_filter_add d.entries (fun e => p e.2)
    (fun e => decide (e.1 = k))
  simp only [countV, erase]
  simp only [decide_not, ne_eq] at hsplit ⊢
  omega

/-- Changing a value in place keeps a count that does not look at what changes. -/
theorem countV_modify (d : Dict K V) (p : V → Bool) (k : K) (f : V → V) (h : ∀ v, p (f v) = p v) :
    (d.modify k f).countV p = d.countV p := by
  simp only [countV, modify, List.countP_map]
  refine List.countP_congr fun e _ => ?_
  by_cases he : e.1 = k <;> simp [he, h]

theorem countV_eq_zero_iff {d : Dict K V} {p : V → Bool} :
    d.countV p = 0 ↔ ∀ k v, d.get? k = some v → p v = false := by
  simp only [countV, List.countP_eq_zero, Bool.not_eq_true]
  constructor
  · intro h k v hk
    exact h (k, v) (mem_entries_iff.mpr hk)
  · intro h h' hm
    obtain ⟨k, v⟩ := h'
    exact h k v (mem_entries_iff.mp hm)

/-! ### Grouping -/

/-- A write that adds `xs` to what a key holds adds `xs` to what all keys hold. -/
theorem perm_flatMap_setList {A : Type*} (f : V → List A) (k : K) (v : V) (xs : List A) (es : List (K × V))
    (hv : (f v).Perm ((getList k es).elim [] f ++ xs)) :
    ((setList k v es).flatMap fun e => f e.2).Perm ((es.flatMap fun e => f e.2) ++ xs) := by
  induction es with
  | nil => simpa [setList, getList] using hv
  | cons e es ih =>
      by_cases h : e.1 = k
      · simp only [setList, getList, h, if_true, Option.elim_some, List.flatMap_cons] at hv ⊢
        refine (hv.append_right _).trans ?_
        rw [List.append_assoc, List.append_assoc]
        exact List.perm_append_comm.append_left _
      · simp only [setList, getList, h, if_false, List.flatMap_cons] at hv ⊢
        rw [List.append_assoc]
        exact (ih hv).append_left _

theorem perm_flatMap_set {A : Type*} (d : Dict K V) (f : V → List A) (k : K) (v : V) (xs : List A)
    (hv : (f v).Perm ((d.get? k).elim [] f ++ xs)) :
    ((d.set k v).entries.flatMap fun e => f e.2).Perm ((d.entries.flatMap fun e => f e.2) ++ xs) :=
  perm_flatMap_setList f k v xs d.entries hv

end Dict

end Pinnokio
