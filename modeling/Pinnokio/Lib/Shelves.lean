import Mathlib.Algebra.BigOperators.Group.Finset.Basic
import Mathlib.Algebra.Order.BigOperators.Group.Finset
import Mathlib.Data.Fintype.BigOperators
import Mathlib.Data.List.Count

/-!
# Items on shelves

Finitely many lists of items, where an item can carry several ids.  Every id occurs once at most (`Distinct`); an
operation takes items out, changes what is not an id, or puts an item in.

* `Distinct.of_countP_le` — taking items out keeps the ids distinct;
* `Distinct.put` — so does putting in an item whose ids are free;
* `free_of_taken` — the ids of an item that was taken out are free.
-/

namespace Pinnokio.Shelves

variable {C I K : Type*} [Fintype C] [DecidableEq K] (ids : I → List K)

/-- How many items carry an id. -/
def occurrences (s : C → List I) (k : K) : ℕ := ∑ c, (s c).countP fun x => k ∈ ids x

/-- Every id occurs once at most. -/
def Distinct (s : C → List I) : Prop := ∀ k, occurrences ids s k ≤ 1

/-- No item carries the id. -/
def Free (s : C → List I) (k : K) : Prop := ∀ c, ∀ x ∈ s c, k ∉ ids x

variable {ids} {s s' : C → List I} {k : K}

theorem occurrences_eq_zero_iff : occurrences ids s k = 0 ↔ Free ids s k := by
  simp [occurrences, Free, List.countP_eq_zero]

theorem occurrences_le (h : ∀ c, ((s' c).countP fun x => k ∈ ids x) ≤ (s c).countP fun x => k ∈ ids x) :
    occurrences ids s' k ≤ occurrences ids s k :=
  Finset.sum_le_sum fun c _ => h c

/-- Taking items out keeps the ids distinct. -/
theorem Distinct.of_countP_le (hs : Distinct ids s)
    (h : ∀ k c, ((s' c).countP fun x => k ∈ ids x) ≤ (s c).countP fun x => k ∈ ids x) : Distinct ids s' :=
  fun k => (occurrences_le fun c => h k c).trans (hs k)

theorem Distinct.of_sublist (hs : Distinct ids s) (h : ∀ c, (s' c).Sublist (s c)) : Distinct ids s' :=
  hs.of_countP_le fun _ c => (h c).countP_le

/-- A filter that drops an item has fewer items of its kind. -/
theorem countP_filter_lt {xs : List I} {p keep : I → Bool} {x : I} (hx : x ∈ xs) (hp : p x = true)
    (hdrop : keep x = false) : (xs.filter keep).countP p < xs.countP p := by
  have hsum := List.countP_eq_countP_filter_add xs p keep
  have hmem : x ∈ xs.filter fun y => !keep y := List.mem_filter.mpr ⟨hx, by rw [hdrop]; rfl⟩
  have hpos : 0 < (xs.filter fun y => !keep y).countP p := List.countP_pos_iff.mpr ⟨x, hmem, hp⟩
  omega

/-- The ids of an item that was taken out are free. -/
theorem free_of_taken (hs : Distinct ids s)
    (h : ∀ c, ((s' c).countP fun x => k ∈ ids x) ≤ (s c).countP fun x => k ∈ ids x)
    (hc : ∃ c, ((s' c).countP fun x => k ∈ ids x) < (s c).countP fun x => k ∈ ids x) : Free ids s' k := by
  obtain ⟨c, hc⟩ := hc
  rw [← occurrences_eq_zero_iff]
  have hlt : occurrences ids s' k < occurrences ids s k :=
    Finset.sum_lt_sum (fun c _ => h c) ⟨c, Finset.mem_univ c, hc⟩
  have hone := hs k
  omega

/-- Putting in an item whose ids are free keeps the ids distinct. -/
theorem Distinct.put [DecidableEq C] (hs : Distinct ids s) {c : C} {x : I} {xs : List I}
    (hperm : xs.Perm (x :: s c)) (hfree : ∀ k ∈ ids x, Free ids s k) :
    Distinct ids (Function.update s c xs) := by
  intro k
  have hrest : ∀ d ∈ Finset.univ.erase c, ((Function.update s c xs d).countP fun x => k ∈ ids x) =
      (s d).countP fun x => k ∈ ids x := by
    intro d hd
    rw [Function.update_of_ne (Finset.ne_of_mem_erase hd)]
  have hnew : occurrences ids (Function.update s c xs) k =
      occurrences ids s k + if k ∈ ids x then 1 else 0 := by
    rw [occurrences, occurrences, ← Finset.add_sum_erase _ _ (Finset.mem_univ c),
      ← Finset.add_sum_erase Finset.univ (fun c => (s c).countP fun x => k ∈ ids x) (Finset.mem_univ c),
      Finset.sum_congr rfl hrest, Function.update_self, hperm.countP_eq, List.countP_cons]
    simp only [decide_eq_true_eq]
    omega
  rw [hnew]
  split
  · next hk =>
    rw [occurrences_eq_zero_iff.mpr (hfree k hk)]
  · exact hs k

end Pinnokio.Shelves
