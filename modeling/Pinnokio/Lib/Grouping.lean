import Mathlib.Algebra.BigOperators.Group.List.Basic
import Mathlib.Data.List.Dedup
import Mathlib.Tactic.Common

/-!
# Grouping rows by a key

The groups of a `GROUP BY`, and the sums over them.  The groups partition the rows, so a total over the groups is the
total over the rows, whatever the key.

* `groups` — the groups, with their keys;
* `sum_filter_keys` — a total over some keys is that over the rows with one of them;
* `sum_groups` — **the total over all groups is that over all rows**;
* `sum_filter_add` — a total splits by a property of the rows.
-/

namespace Pinnokio.Grouping

variable {R K M : Type*} [AddCommMonoid M]

/-- `GROUP BY key`. -/
def groups [DecidableEq K] (key : R → K) (rows : List R) : List (K × List R) :=
  ((rows.map key).dedup).map fun k => (k, rows.filter fun r => key r = k)

/-- A total splits by a property of the rows. -/
theorem sum_filter_add (p : R → Bool) (f : R → M) (rows : List R) :
    ((rows.filter p).map f).sum + ((rows.filter fun r => !p r).map f).sum = (rows.map f).sum := by
  induction rows with
  | nil => simp
  | cons r rows ih =>
      cases hp : p r with
      | true =>
          rw [List.filter_cons_of_pos hp, List.filter_cons_of_neg (by simp [hp])]
          simp only [List.map_cons, List.sum_cons]
          rw [add_assoc, ih]
      | false =>
          rw [List.filter_cons_of_neg (by simp [hp]), List.filter_cons_of_pos (by simp [hp])]
          simp only [List.map_cons, List.sum_cons]
          rw [add_left_comm, ih]

/-- **A total over some keys** is that over the rows with one of them. -/
theorem sum_filter_keys [DecidableEq K] (key : R → K) (f : R → M) (rows : List R) {keys : List K} (hkeys : keys.Nodup) :
    (keys.map fun k => ((rows.filter fun r => key r = k).map f).sum).sum =
      ((rows.filter fun r => key r ∈ keys).map f).sum := by
  induction keys with
  | nil => simp
  | cons k keys ih =>
      obtain ⟨hk, hkeys⟩ := List.nodup_cons.mp hkeys
      rw [List.map_cons, List.sum_cons, ih hkeys]
      rw [← sum_filter_add (fun r => decide (key r = k)) f (rows.filter fun r => key r ∈ k :: keys)]
      -- the rows with the first key, then the others
      congr 2
      · rw [List.filter_filter]
        congr 1
        apply List.filter_congr
        intro r _
        by_cases hr : key r = k <;> simp [hr]
      · rw [List.filter_filter]
        congr 1
        apply List.filter_congr
        intro r _
        by_cases hr : key r = k
        · simp [hr, hk]
        · simp [hr]

/-- **The total over all groups** is that over all rows. -/
theorem sum_groups [DecidableEq K] (key : R → K) (f : R → M) (rows : List R) :
    ((groups key rows).map fun g => (g.2.map f).sum).sum = (rows.map f).sum := by
  have hall : (rows.filter fun r => key r ∈ (rows.map key).dedup) = rows := by
    rw [List.filter_eq_self]
    intro r hr
    simpa using ⟨r, hr, rfl⟩
  rw [groups, List.map_map]
  show (((rows.map key).dedup).map fun k => ((rows.filter fun r => key r = k).map f).sum).sum = _
  rw [sum_filter_keys key f rows (List.nodup_dedup _), hall]

end Pinnokio.Grouping
