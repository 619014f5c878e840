import Mathlib.Algebra.BigOperators.Group.List.Basic
import Pinnokio.Lib.Dict

/-!
# Totals over the values of a dictionary

Every value of a dictionary has a weight, and the dictionary the sum of them.

* `total_set` — the total after a value is written;
* `total_set_of_not_mem` — the total after a value is added under a new key;
* `total_modifyAll` — the total after several values were changed in place;
* `gained_filter` — when these are the values that meet a condition;
* `sum_filter` — the sum over the elements that meet a condition, as a sum over all elements.
-/

namespace Pinnokio

variable {α M : Type*} [AddCommMonoid M]

/-- A sum over the elements that meet a condition. -/
theorem sum_filter (p : α → Bool) (f : α → M) (xs : List α) :
    ((xs.filter p).map f).sum = (xs.map fun x => if p x then f x else 0).sum := by
  induction xs with
  | nil => rfl
  | cons x xs ih =>
      by_cases hx : p x = true
      · simp [hx, ih]
      · simp [hx, ih]

namespace Dict

variable {K V : Type*} [DecidableEq K]

/-- The sum of the weights of the values. -/
def total (d : Dict K V) (w : V → M) : M := (d.entries.map fun e => w e.2).sum

/-- The total after a value is written: that of before is taken off. -/
theorem total_set (d : Dict K V) (k : K) (v : V) (w : V → M) :
    (d.set k v).total w + ((d.get? k).map w).getD 0 = d.total w + w v := by
  show ((setList k v d.entries).map fun e => w e.2).sum + ((getList k d.entries).map w).getD 0 =
    (d.entries.map fun e => w e.2).sum + w v
  induction d.entries with
  | nil => simp [setList, getList]
  | cons e es ih =>
      rw [setList, getList]
      by_cases h : e.1 = k
      · rw [if_pos h, if_pos h, List.map_cons, List.map_cons, List.sum_cons, List.sum_cons]
        show w v + _ + w e.2 = w e.2 + _ + w v
        rw [add_right_comm, add_comm (w v), add_right_comm]
      · rw [if_neg h, if_neg h, List.map_cons, List.map_cons, List.sum_cons, List.sum_cons, add_assoc, ih, add_assoc]

theorem total_set_of_not_mem {d : Dict K V} {k : K} (v : V) (w : V → M) (h : k ∉ d.keys) :
    (d.set k v).total w = d.total w + w v := by
  unfold total
  rw [entries_set_of_not_mem v h, List.map_append, List.sum_append, List.map_singleton, List.sum_singleton]

/-- What the listed keys gain when the weight of a changed value grows by `gain`. -/
def gained (d : Dict K V) (ks : List K) (gain : V → M) : M :=
  (d.entries.map fun e => if e.1 ∈ ks then gain e.2 else 0).sum

theorem total_modifyAll (d : Dict K V) (ks : List K) {f : V → V} (hf : ∀ v, f (f v) = f v) {w gain : V → M}
    (hgain : ∀ v, w (f v) = w v + gain v) : (d.modifyAll ks f).total w = d.total w + d.gained ks gain := by
  unfold total gained
  rw [entries_modifyAll d ks f hf, List.map_map, ← List.sum_map_add]
  congr 1
  refine List.map_congr_left fun e _ => ?_
  by_cases hk : e.1 ∈ ks
  · simp [hk, hgain]
  · simp [hk]

/-- When the keys are those of the entries that meet a condition, only these entries gain. -/
theorem gained_filter (d : Dict K V) (p : K × V → Bool) (gain : V → M) :
    d.gained ((d.entries.filter p).map Prod.fst) gain = ((d.entries.filter p).map fun e => gain e.2).sum := by
  rw [gained, sum_filter]
  congr 1
  refine List.map_congr_left fun e he => ?_
  have hmem : e.1 ∈ (d.entries.filter p).map Prod.fst ↔ p e = true := by
    simp only [List.mem_map, List.mem_filter]
    constructor
    · intro h
      obtain ⟨x, ⟨hx, hp⟩, hkey⟩ := h
      have hget := mem_entries_iff.mp (show (x.1, x.2) ∈ d.entries from hx)
      rw [hkey, mem_entries_iff.mp he] at hget
      have hxe : x = e := Prod.ext hkey (Option.some.inj hget).symm
      exact hxe ▸ hp
    · exact fun hp => ⟨e, ⟨he, hp⟩, rfl⟩
  simp only [hmem]

end Dict

end Pinnokio
