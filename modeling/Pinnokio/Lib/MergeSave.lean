import Pinnokio.Lib.Dict

/-!
# Saving a map by merging

A document store that saves a map field by merging writes the entries it is given over those it has, and keeps the
others: a key that was deleted from the map before it was saved is still there afterwards.  Only the empty map replaces
what is stored.

* `get?_mergeSaved` — what a key holds after a save;
* `mergeSaved_of_isEmpty` — a save that leaves nothing;
* `isEmpty_erase_iff` — a deletion leaves nothing exactly when there was no other key.
-/

namespace Pinnokio.Dict

variable {K V : Type*} [DecidableEq K]

/-- A stored map after another one has been saved over it. -/
def mergeSaved (stored given : Dict K V) : Dict K V := if given.isEmpty then ∅ else stored.setAll given.entries

theorem get?_eq_none_of_isEmpty {d : Dict K V} (h : d.isEmpty = true) (k : K) : d.get? k = none :=
  get?_eq_none_iff.mpr (isEmpty_iff.mp h k)

theorem mergeSaved_of_isEmpty {given : Dict K V} (h : given.isEmpty = true) (stored : Dict K V) :
    mergeSaved stored given = ∅ := if_pos h

theorem get?_mergeSaved {given : Dict K V} (h : given.isEmpty = false) (stored : Dict K V) (k : K) :
    (mergeSaved stored given).get? k = (given.get? k).or (stored.get? k) := by
  rw [mergeSaved, h, if_neg Bool.false_ne_true]
  exact get?_setAll stored given.nodup k

/-- A single entry. -/
theorem get?_mergeSaved_single (stored : Dict K V) (k : K) (v : V) (k' : K) :
    (mergeSaved stored ((∅ : Dict K V).set k v)).get? k' = if k' = k then some v else stored.get? k' := by
  have hne : ((∅ : Dict K V).set k v).isEmpty = false :=
    isEmpty_eq_false_of_mem (mem_keys_set.mpr (Or.inl rfl))
  rw [get?_mergeSaved hne, get?_set]
  by_cases hk : k' = k
  · rw [if_pos hk, if_pos hk]
    rfl
  · rw [if_neg hk, if_neg hk]
    rfl

/-- What is in the map that is saved is there afterwards. -/
theorem get?_mergeSaved_of_some {given : Dict K V} {k : K} {v : V} (h : given.get? k = some v) (stored : Dict K V) :
    (mergeSaved stored given).get? k = some v := by
  rw [get?_mergeSaved (isEmpty_eq_false_of_mem (mem_keys_of_get? h)), h]
  rfl

theorem isEmpty_erase_iff {d : Dict K V} {k : K} : (d.erase k).isEmpty = true ↔ ∀ k' ∈ d.keys, k' = k := by
  rw [isEmpty_iff]
  constructor
  · intro h k' hk'
    by_contra hne
    exact h k' (mem_keys_erase.mpr ⟨hne, hk'⟩)
  · intro h k' hk'
    obtain ⟨hne, hk'⟩ := mem_keys_erase.mp hk'
    exact hne (h k' hk')

end Pinnokio.Dict
