import Mathlib.Data.List.Induction
import Mathlib.Order.Lattice
import Mathlib.Order.Monotone.Defs

/-!
# A running best that remembers rounded scores

Offers with scores are looked at one after the other.  The best so far is kept, but what is remembered of its score is
rounded, and a later offer replaces it if its own score, not rounded, is above that.

* `keepAll_eq_some_iff` — **the offer kept at the end is the one that prevails**: it is above what would be
  remembered of each earlier offer, and no later one is above what is remembered of it;
* `keepAll_best_iff` — it has the best score exactly when an offer with the best score prevails.
-/

namespace Pinnokio.RoundedBest

variable {ι α : Type*} [LinearOrder α] {r : α → α} {offers : List (ι × α)} {o : ι × α}

/-- An offer is looked at. -/
def keep (r : α → α) (kept : Option (ι × α)) (offer : ι × α) : Option (ι × α) :=
  match kept with
  | none => some offer
  | some best => if r best.2 < offer.2 then some offer else some best

/-- The offer that is kept of all. -/
def keepAll (r : α → α) (offers : List (ι × α)) : Option (ι × α) := offers.foldl (keep r) none

/-- Above what would be remembered of the earlier offers, with no later one above what is remembered of it. -/
def Prevails (r : α → α) (offers : List (ι × α)) (o : ι × α) : Prop :=
  ∃ before after, offers = before ++ o :: after ∧ (∀ x ∈ before, r x.2 < o.2) ∧ ∀ x ∈ after, x.2 ≤ r o.2

theorem Prevails.mem (h : Prevails r offers o) : o ∈ offers := by
  obtain ⟨before, after, rfl, -, -⟩ := h
  exact List.mem_append_right before List.mem_cons_self

theorem prevails_singleton (o : ι × α) : Prevails r [o] o :=
  ⟨[], [], rfl, fun _ hx => absurd hx List.not_mem_nil, fun _ hx => absurd hx List.not_mem_nil⟩

theorem keepAll_concat (offers : List (ι × α)) (o : ι × α) :
    keepAll r (offers ++ [o]) = keep r (keepAll r offers) o := by
  rw [keepAll, List.foldl_append]
  rfl

/-- Something is kept as soon as there is an offer. -/
theorem keepAll_eq_none_iff : keepAll r offers = none ↔ offers = [] := by
  induction offers using List.reverseRecOn with
  | nil => exact iff_of_true rfl rfl
  | append_singleton offers o _ =>
      rw [keepAll_concat]
      refine iff_of_false ?_ (List.append_ne_nil_of_right_ne_nil offers (List.cons_ne_nil o []))
      rcases keepAll r offers with _ | best
      · exact Option.some_ne_none o
      · dsimp only [keep]
        split
        · exact Option.some_ne_none o
        · exact Option.some_ne_none best

/-- What one step does to a prevailing offer: the new one replaces it, or it prevails further. -/
theorem Prevails.concat (hmono : Monotone r) (hidem : ∀ x, r (r x) = r x) (h : Prevails r offers o) (x : ι × α) :
    r o.2 < x.2 ∧ Prevails r (offers ++ [x]) x ∨ x.2 ≤ r o.2 ∧ Prevails r (offers ++ [x]) o := by
  obtain ⟨before, after, rfl, hbefore, hafter⟩ := h
  have hlater : ∀ y : ι × α, y.2 ≤ r o.2 → r y.2 ≤ r o.2 := fun y hy => hidem o.2 ▸ hmono hy
  rcases lt_or_ge (r o.2) x.2 with hlt | hle
  · left
    refine ⟨hlt, before ++ o :: after, [], rfl, fun y hy => ?_, fun y hy => absurd hy List.not_mem_nil⟩
    rcases List.mem_append.mp hy with hy | hy
    · exact lt_of_le_of_lt (hidem y.2 ▸ hmono (hbefore y hy).le) hlt
    · rcases List.mem_cons.mp hy with rfl | hy
      · exact hlt
      · exact lt_of_le_of_lt (hlater y (hafter y hy)) hlt
  · right
    refine ⟨hle, before, after ++ [x], ?_, hbefore, fun y hy => ?_⟩
    · rw [List.append_assoc, List.cons_append]
    · rcases List.mem_append.mp hy with hy | hy
      · exact hafter y hy
      · rw [List.mem_singleton.mp hy]
        exact hle

/-- What is kept prevails. -/
theorem prevails_of_keepAll (hmono : Monotone r) (hidem : ∀ x, r (r x) = r x) (h : keepAll r offers = some o) :
    Prevails r offers o := by
  induction offers using List.reverseRecOn generalizing o with
  | nil => cases h
  | append_singleton offers x ih =>
      rw [keepAll_concat] at h
      cases hkept : keepAll r offers with
      | none =>
          rw [hkept] at h
          cases h
          rw [keepAll_eq_none_iff.mp hkept]
          exact prevails_singleton x
      | some best =>
          rw [hkept] at h
          dsimp only [keep] at h
          rcases (ih hkept).concat hmono hidem x with ⟨hlt, hx⟩ | ⟨hle, hbest⟩
          · rw [if_pos hlt] at h
            cases h
            exact hx
          · rw [if_neg (not_lt.mpr hle)] at h
            cases h
            exact hbest

/-- No offer has a higher rounded score than one that prevails. -/
theorem Prevails.rounded_le (hmono : Monotone r) (hidem : ∀ x, r (r x) = r x) (h : Prevails r offers o) :
    ∀ x ∈ offers, r x.2 ≤ r o.2 := by
  obtain ⟨before, after, rfl, hbefore, hafter⟩ := h
  intro x hx
  rcases List.mem_append.mp hx with hx | hx
  · calc r x.2 = r (r x.2) := (hidem x.2).symm
      _ ≤ r o.2 := hmono (hbefore x hx).le
  · rcases List.mem_cons.mp hx with rfl | hx
    · exact le_rfl
    · calc r x.2 ≤ r (r o.2) := hmono (hafter x hx)
        _ = r o.2 := hidem o.2

theorem foldl_keep_of_le (h : ∀ x ∈ offers, x.2 ≤ r o.2) : offers.foldl (keep r) (some o) = some o := by
  induction offers with
  | nil => rfl
  | cons x offers ih =>
      have hx : keep r (some o) x = some o := if_neg (not_lt.mpr (h x List.mem_cons_self))
      rw [List.foldl_cons, hx]
      exact ih fun y hy => h y (List.mem_cons_of_mem x hy)

/-- **The offer kept at the end is the one that prevails.** -/
theorem keepAll_eq_some_iff (hmono : Monotone r) (hidem : ∀ x, r (r x) = r x) :
    keepAll r offers = some o ↔ Prevails r offers o := by
  refine ⟨prevails_of_keepAll hmono hidem, ?_⟩
  rintro ⟨before, after, rfl, hbefore, hafter⟩
  have htake : keep r (keepAll r before) o = some o := by
    cases hkept : keepAll r before with
    | none => rfl
    | some best => exact if_pos (hbefore best (prevails_of_keepAll hmono hidem hkept).mem)
  rw [keepAll, List.foldl_append, List.foldl_cons]
  change after.foldl (keep r) (keep r (keepAll r before) o) = some o
  rw [htake]
  exact foldl_keep_of_le hafter

/-- **What is kept has the best score** exactly when an offer with the best score prevails. -/
theorem keepAll_best_iff (hmono : Monotone r) (hidem : ∀ x, r (r x) = r x) :
    (∀ o, keepAll r offers = some o → ∀ x ∈ offers, x.2 ≤ o.2) ↔
      (offers ≠ [] → ∃ o, Prevails r offers o ∧ ∀ x ∈ offers, x.2 ≤ o.2) := by
  constructor
  · intro hbest hne
    cases hkept : keepAll r offers with
    | none => exact absurd (keepAll_eq_none_iff.mp hkept) hne
    | some o => exact ⟨o, prevails_of_keepAll hmono hidem hkept, hbest o hkept⟩
  · intro h o hkept
    have hmem := (prevails_of_keepAll hmono hidem hkept).mem
    obtain ⟨p, hprevails, hp⟩ := h (List.ne_nil_of_mem hmem)
    rw [(keepAll_eq_some_iff hmono hidem).mpr hprevails] at hkept
    cases hkept
    exact hp

end Pinnokio.RoundedBest
