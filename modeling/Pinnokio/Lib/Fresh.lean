import Mathlib.Data.List.Basic
import Mathlib.Data.Finset.Card
import Mathlib.Data.Fintype.Basic

/-!
# The first free value of a sequence

A loop that tries the values of a sequence one after another until one is not in a list.  A sequence without
repetitions has a free value among its first `length + 1` (`exists_free`), so the loop ends, and what it ends with is
free (`not_mem_fresh`).
-/

namespace Pinnokio.Fresh

variable {A : Type*} [DecidableEq A]

/-- The first value that is not in the list. -/
def fresh (f : ℕ → A) (avoid : List A) : A :=
  f (((List.range (avoid.length + 1)).find? fun i => f i ∉ avoid).getD 0)

variable {f : ℕ → A}

/-- One more value than the list has elements: one of them is free. -/
theorem exists_free (hf : Function.Injective f) (avoid : List A) :
    ∃ i ∈ List.range (avoid.length + 1), f i ∉ avoid := by
  by_contra hall
  push Not at hall
  have himage : (Finset.range (avoid.length + 1)).image f ⊆ avoid.toFinset := by
    intro x hx
    obtain ⟨i, hi, rfl⟩ := Finset.mem_image.mp hx
    exact List.mem_toFinset.mpr (hall i (List.mem_range.mpr (Finset.mem_range.mp hi)))
  have hcard := Finset.card_le_card himage
  rw [Finset.card_image_of_injective _ hf, Finset.card_range] at hcard
  have hle := avoid.toFinset_card_le
  omega

theorem not_mem_fresh (hf : Function.Injective f) (avoid : List A) : fresh f avoid ∉ avoid := by
  obtain ⟨i, hi, hfree⟩ := exists_free hf avoid
  unfold fresh
  cases h : (List.range (avoid.length + 1)).find? fun i => f i ∉ avoid with
  | none => exact absurd (decide_eq_true hfree) (List.find?_eq_none.mp h i hi)
  | some j =>
      have hj := List.find?_some h
      exact of_decide_eq_true hj

theorem fresh_eq (f : ℕ → A) (avoid : List A) : ∃ i, fresh f avoid = f i := ⟨_, rfl⟩

end Pinnokio.Fresh
