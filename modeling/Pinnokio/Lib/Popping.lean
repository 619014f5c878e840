import Pinnokio.Lib.Dict

/-!
# Entries taken out of a dictionary

Items come one after another, and each takes the entry under its key out of a dictionary, if it has a key and the
entry is still there.

* `get?_popEach` — what is left is what no item has a key of;
* `popEach_eq_map` — **items with distinct keys do not see each other**.
-/

namespace Pinnokio.Dict

variable {ι K V W : Type*} [DecidableEq K] {key : ι → Option K} {items : List ι} {k : K}

/-- `d.pop(k, None)`; without a key nothing is taken. -/
def pop (d : Dict K V) : Option K → Option V × Dict K V
  | none => (none, d)
  | some k => (d.get? k, d.erase k)

/-- Every item takes its entry out. -/
def popEach (key : ι → Option K) : Dict K V → List ι → List (ι × Option V) × Dict K V
  | d, [] => ([], d)
  | d, i :: items =>
      let (found, left) := popEach key (d.pop (key i)).2 items
      ((i, (d.pop (key i)).1) :: found, left)

theorem popEach_cons (key : ι → Option K) (d : Dict K V) (i : ι) (items : List ι) :
    popEach key d (i :: items) =
      ((i, (d.pop (key i)).1) :: (popEach key (d.pop (key i)).2 items).1, (popEach key (d.pop (key i)).2 items).2) :=
  rfl

theorem pop_fst (d : Dict K V) (k? : Option K) : (d.pop k?).1 = k?.bind d.get? := by
  cases k? <;> rfl

theorem get?_pop (d : Dict K V) (k? : Option K) (k : K) :
    (d.pop k?).2.get? k = if k? = some k then none else d.get? k := by
  cases k? with
  | none => rfl
  | some k' =>
      show (d.erase k').get? k = _
      rw [get?_erase]
      by_cases h : k = k'
      · rw [if_pos h, if_pos (congrArg some h.symm)]
      · rw [if_neg h, if_neg fun heq => h (Option.some.inj heq).symm]

/-- All items are there, in their order. -/
theorem map_fst_popEach (key : ι → Option K) (d : Dict K V) (items : List ι) :
    (popEach key d items).1.map Prod.fst = items := by
  induction items generalizing d with
  | nil => rfl
  | cons i items ih => rw [popEach_cons, List.map_cons, ih]

/-- **What is left.** -/
theorem get?_popEach (key : ι → Option K) (d : Dict K V) (items : List ι) (k : K) :
    (popEach key d items).2.get? k = if k ∈ items.filterMap key then none else d.get? k := by
  induction items generalizing d with
  | nil => rfl
  | cons i items ih =>
      rw [popEach_cons]
      dsimp only
      rw [ih, get?_pop]
      by_cases hi : key i = some k
      · simp [hi]
      · have hmem : k ∈ (i :: items).filterMap key ↔ k ∈ items.filterMap key := by
          simp [List.mem_filterMap, hi]
        rw [if_neg hi]
        simp only [hmem]

theorem get?_of_popEach {d : Dict K V} {v : V} (h : (popEach key d items).2.get? k = some v) : d.get? k = some v := by
  rw [get?_popEach] at h
  split at h
  · cases h
  · exact h

theorem mem_keys_popEach {d : Dict K V} :
    k ∈ (popEach key d items).2.keys ↔ k ∈ d.keys ∧ k ∉ items.filterMap key := by
  rw [← not_iff_not, ← get?_eq_none_iff, get?_popEach, not_and, not_not]
  by_cases hmem : k ∈ items.filterMap key
  · simp only [hmem, if_true, implies_true]
  · simp only [hmem, if_false, get?_eq_none_iff, imp_false]

/-- **Items with distinct keys do not see each other.** -/
theorem popEach_eq_map (d : Dict K V) (h : (items.filterMap key).Nodup) :
    (popEach key d items).1 = items.map fun i => (i, (key i).bind d.get?) := by
  induction items generalizing d with
  | nil => rfl
  | cons i items ih =>
      rw [popEach_cons, List.map_cons, pop_fst]
      have hrest : (items.filterMap key).Nodup := h.sublist ((List.sublist_cons_self i items).filterMap key)
      rw [ih _ hrest]
      refine congrArg (List.cons _) (List.map_congr_left fun j hj => ?_)
      -- The key of an item after the first one is not the key of the first one.
      cases hkey : key j with
      | none => rfl
      | some k =>
          have hne : key i ≠ some k := by
            intro heq
            rw [List.filterMap_cons, heq] at h
            exact (List.nodup_cons.mp h).1 (List.mem_filterMap.mpr ⟨j, hj, hkey⟩)
          show (j, (d.pop (key i)).2.get? k) = (j, d.get? k)
          rw [get?_pop, if_neg hne]

/-- How often a key is among the entries that items with distinct keys have found. -/
theorem count_found {d : Dict K V} {f : ι → V → W} {g : W → K} (h : (items.filterMap key).Nodup)
    (hg : ∀ i v, (key i).bind d.get? = some v → key i = some (g (f i v))) (k : K) :
    (((popEach key d items).1.filterMap fun p => p.2.map (f p.1)).map g).count k =
      if k ∈ d.keys then (items.filterMap key).count k else 0 := by
  rw [popEach_eq_map d h]
  clear h
  induction items with
  | nil =>
      show 0 = _
      split <;> rfl
  | cons i items ih =>
      rw [List.map_cons, List.filterMap_cons, List.filterMap_cons]
      cases hkey : key i with
      | none => simpa [hkey] using ih
      | some k' =>
          cases hget : d.get? k' with
          | none =>
              by_cases hk : k ∈ d.keys
              · have hne : k' ≠ k := fun heq => get?_eq_none_iff.mp hget (heq ▸ hk)
                simpa [hget, hk, hne] using ih
              · simpa [hget, hk] using ih
          | some v =>
              have hfound := hg i v (by rw [hkey]; exact hget)
              rw [hkey, Option.some.injEq] at hfound
              simp only [Option.bind_some, hget, Option.map_some, List.map_cons, List.count_cons, ih, ← hfound]
              by_cases hk : k ∈ d.keys
              · simp only [if_pos hk]
              · have hne : k' ≠ k := fun heq => hk (heq ▸ mem_keys_of_get? hget)
                simp [hk, hne]

end Pinnokio.Dict
