import Mathlib.Data.List.Dedup
import Mathlib.Data.List.Induction
import Mathlib.Data.List.Perm.Subperm

/-!
# The most recent keys of a history

A list keeps the keys that were used last: a key that is used goes to the head, its older place is given up, and what
is beyond a number of places is dropped.

* `age` — how many uses came after the last one of a key;
* `IsWindow` — the keys of a history with the smallest ages, in the order of their ages;
* `isWindow_take_recent` — the first of the keys, newest first, are the window, and there is no other one;
* `touch_take_recent` — **one use keeps the window**: it is enough to look at the keys that were kept.
-/

namespace Pinnokio.RecentWindow

variable {K : Type*} [DecidableEq K]

/-- How many uses came after the last one of a key. -/
def age (history : List K) (k : K) : ℕ := history.reverse.idxOf k

/-- The keys of a history, the one that was used last first. -/
def recent (history : List K) : List K := history.dedup.reverse

/-- A key is used: it goes to the head of the list, which has `n` places. -/
def touch (n : ℕ) (k : K) (window : List K) : List K := (k :: window.filter (· ≠ k)).take n

/-- **The window of a history**: up to `n` of its keys, newest first, and every other key is older. -/
structure IsWindow (n : ℕ) (history window : List K) : Prop where
  nodup : window.Nodup
  length_eq : window.length = min n history.dedup.length
  subset : ∀ k ∈ window, k ∈ history
  sorted : window.Pairwise fun k k' => age history k < age history k'
  newest : ∀ k ∈ window, ∀ k' ∈ history, k' ∉ window → age history k < age history k'

variable {n : ℕ} {history window : List K} {k k' : K}

theorem age_concat (h : k' ≠ k) : age (history ++ [k]) k' = age history k' + 1 := by
  have hne : (k == k') = false := by simpa using Ne.symm h
  rw [age, List.reverse_append, List.reverse_singleton, List.singleton_append, List.idxOf_cons, hne]
  rfl

theorem age_concat_self : age (history ++ [k]) k = 0 := by
  rw [age, List.reverse_append, List.reverse_singleton, List.singleton_append]
  exact List.idxOf_cons_self

/-- The keys after one more use. -/
theorem recent_concat : recent (history ++ [k]) = k :: (recent history).filter (· ≠ k) := by
  have hlast : (history ++ [k]).dedup = history.dedup.filter (· ≠ k) ++ [k] := by
    induction history with
    | nil => rfl
    | cons a history ih =>
        rw [List.cons_append]
        by_cases ha : a ∈ history
        · rw [List.dedup_cons_of_mem ha, List.dedup_cons_of_mem (List.mem_append_left _ ha), ih]
        · by_cases hk : a = k
          · subst hk
            rw [List.dedup_cons_of_mem (by simp), List.dedup_cons_of_notMem ha, ih]
            simp
          · rw [List.dedup_cons_of_notMem ha, List.dedup_cons_of_notMem (by simp [ha, hk]), ih]
            simp [hk]
  rw [recent, hlast, recent, List.reverse_append, List.filter_reverse]
  rfl

theorem mem_recent : k ∈ recent history ↔ k ∈ history := by
  rw [recent, List.mem_reverse, List.mem_dedup]

theorem nodup_recent : (recent history).Nodup := List.nodup_reverse.mpr (List.nodup_dedup history)

/-- They are in the order of their ages. -/
theorem sorted_recent : (recent history).Pairwise fun k k' => age history k < age history k' := by
  induction history using List.reverseRecOn with
  | nil => exact List.Pairwise.nil
  | append_singleton history k ih =>
      have hage : ∀ k' ∈ (recent history).filter (· ≠ k), age (history ++ [k]) k' = age history k' + 1 :=
        fun k' hk' => age_concat (by simpa using (List.mem_filter.mp hk').2)
      rw [recent_concat, List.pairwise_cons]
      constructor
      · intro k' hk'
        rw [age_concat_self, hage k' hk']
        omega
      · refine (ih.filter _).imp_of_mem fun {a b} ha hb hlt => ?_
        rw [hage a ha, hage b hb]
        omega

/-- The first `n` of them are the window. -/
theorem isWindow_take_recent : IsWindow n history ((recent history).take n) where
  nodup := nodup_recent.sublist (List.take_sublist _ _)
  length_eq := by rw [List.length_take, recent, List.length_reverse]
  subset := fun k hk => mem_recent.mp (List.mem_of_mem_take hk)
  sorted := sorted_recent.sublist (List.take_sublist _ _)
  newest := by
    intro k hk k' hk' hout
    have hboth : (recent history).Pairwise fun k k' => age history k < age history k' := sorted_recent
    rw [← List.take_append_drop n (recent history), List.pairwise_append] at hboth
    refine hboth.2.2 k hk k' ?_
    have hmem := mem_recent.mpr hk'
    rw [← List.take_append_drop n (recent history), List.mem_append] at hmem
    exact hmem.resolve_left hout

/-- No key is in one window and not in another one, since the other one has a key in its place that is both older and
newer. -/
theorem IsWindow.subset_of {window' : List K} (h : IsWindow n history window) (h' : IsWindow n history window') :
    window ⊆ window' := by
  intro k hk
  by_contra hout
  have hlength : window'.length = window.length := h'.length_eq.trans h.length_eq.symm
  obtain ⟨other, hother, hnot⟩ : ∃ other ∈ window', other ∉ window := by
    by_contra hnone
    have hsub : window' ⊆ window.erase k := by
      intro x hx
      have hin : x ∈ window := by_contra fun hx' => hnone ⟨x, hx, hx'⟩
      exact (h.nodup.mem_erase_iff).mpr ⟨fun hxk => hout (hxk ▸ hx), hin⟩
    have hle := (List.subperm_of_subset h'.nodup hsub).length_le
    have hpos := List.length_pos_of_mem hk
    rw [List.length_erase_of_mem hk] at hle
    omega
  have hlt := h.newest k hk other (h'.subset other hother) hnot
  have hgt := h'.newest other hother k (h.subset k hk) hout
  omega

/-- **A history has one window.** -/
theorem IsWindow.eq {window' : List K} (h : IsWindow n history window) (h' : IsWindow n history window') :
    window = window' := by
  have hperm : window.Perm window' :=
    (List.perm_ext_iff_of_nodup h.nodup h'.nodup).mpr fun k =>
      ⟨fun hk => h.subset_of h' hk, fun hk => h'.subset_of h hk⟩
  refine hperm.eq_of_pairwise (fun a b _ _ hab hba => ?_) h.sorted h'.sorted
  exact absurd hab (Nat.lt_asymm hba)

/-- Among the first `n + 1` of different keys, `n` are left when one of them is taken out. -/
theorem take_filter_take {xs : List K} (hnodup : xs.Nodup) :
    ((xs.take (n + 1)).filter (· ≠ k)).take n = (xs.filter (· ≠ k)).take n := by
  rcases Nat.le_total xs.length (n + 1) with hshort | hlong
  · rw [List.take_of_length_le hshort]
  · have hlength : n ≤ ((xs.take (n + 1)).filter (· ≠ k)).length := by
      have herase : (xs.take (n + 1)).erase k = (xs.take (n + 1)).filter (· ≠ k) := by
        rw [(hnodup.sublist (List.take_sublist _ _)).erase_eq_filter]
        exact List.filter_congr fun x _ => Bool.eq_iff_iff.mpr (by simp)
      have hfull : (xs.take (n + 1)).length = n + 1 := List.length_take_of_le hlong
      have hle : (xs.take (n + 1)).length - 1 ≤ ((xs.take (n + 1)).erase k).length := by
        rw [List.length_erase]
        split <;> omega
      rw [herase, hfull] at hle
      exact hle
    conv_rhs => rw [← List.take_append_drop (n + 1) xs, List.filter_append]
    rw [List.take_append_of_le_length hlength]

/-- **One use keeps the window.** -/
theorem touch_take_recent : touch n k ((recent history).take n) = (recent (history ++ [k])).take n := by
  rw [touch, recent_concat]
  cases n with
  | zero => rfl
  | succ n =>
      rw [List.take_succ_cons, List.take_succ_cons, take_filter_take nodup_recent]

end Pinnokio.RecentWindow
