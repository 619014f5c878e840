import Mathlib.Data.Set.Insert
import Pinnokio.Lib.Runs

/-!
# Checklists that close themselves

A checklist is a set of open items.  A report about an item either finishes the item or opens it (again), and the
list is closed for good when nothing is open after a report.  Whether the list closes exactly when every expected
item has been finished depends on which items were open at the start.

* `run_of_same`, `run_of_single` — the two starts for which it does;
* `run_finish` — what a list of finishing reports leads to;
* `closes_iff` — there is no third.
-/

namespace Pinnokio.Checklist

open Pinnokio.Runs

variable {α : Type*}

/-- A report about an item. -/
structure Report (α : Type*) where
  item : α
  finished : Bool

/-- The open items after a report. -/
def report (s : Set α) (r : Report α) : Set α :=
  if r.finished then s \ {r.item} else insert r.item s

open Classical in
/-- The checklist after a report; `none` is the closed list. -/
noncomputable def step : Option (Set α) → Report α → Option (Set α)
  | none, _ => none
  | some s, r => if report s r = ∅ then none else some (report s r)

/-- The item has been finished at least once. -/
def FinishedIn (rs : List (Report α)) (k : α) : Prop := ∃ r ∈ rs, r.item = k ∧ r.finished = true

/-- No finished item is opened again while another expected item is not finished. -/
def InOrder (expected : List α) (rs : List (Report α)) : Prop :=
  ∀ pre r, pre ++ [r] <+: rs → r.finished = false →
    ¬FinishedIn pre r.item ∨ ∀ k ∈ expected, FinishedIn pre k

/-- The list has closed exactly when every expected item has been finished. -/
def ClosesWith (own : Set α) (expected : List α) (rs : List (Report α)) : Prop :=
  run step (some own) rs = none ↔ ∀ k ∈ expected, FinishedIn rs k

theorem step_none (r : Report α) : step none r = none := rfl

theorem step_of_empty {s : Set α} {r : Report α} (h : report s r = ∅) : step (some s) r = none :=
  if_pos h

theorem step_of_mem {s : Set α} {r : Report α} {k : α} (h : k ∈ report s r) :
    step (some s) r = some (report s r) :=
  if_neg fun he => by simp [he] at h

theorem finishedIn_concat {rs : List (Report α)} {r : Report α} {k : α} :
    FinishedIn (rs ++ [r]) k ↔ FinishedIn rs k ∨ r.item = k ∧ r.finished = true := by
  simp only [FinishedIn, List.mem_append, List.mem_singleton]
  constructor
  · intro h'
    obtain ⟨x, hx | rfl, h⟩ := h'
    · exact Or.inl ⟨x, hx, h⟩
    · exact Or.inr h
  · intro h'
    rcases h' with ⟨x, hx, h⟩ | h
    · exact ⟨x, Or.inl hx, h⟩
    · exact ⟨r, Or.inr rfl, h⟩

theorem InOrder.init {expected : List α} {rs : List (Report α)} {r : Report α}
    (h : InOrder expected (rs ++ [r])) : InOrder expected rs :=
  fun pre x hp => h pre x (hp.trans (List.prefix_append _ _))

/-! ### Starts that close in time -/

/-- If the expected items are open at the start, the open items are those not yet finished. -/
theorem run_of_same {own : Set α} {expected : List α} (hne : expected ≠ [])
    (hsame : ∀ k, k ∈ own ↔ k ∈ expected) (rs : List (Report α)) (hitems : ∀ r ∈ rs, r.item ∈ expected)
    (hord : InOrder expected rs) :
    ((∀ k ∈ expected, FinishedIn rs k) ∧ run step (some own) rs = none) ∨
      (¬∀ k ∈ expected, FinishedIn rs k) ∧
        run step (some own) rs = some {k | k ∈ expected ∧ ¬FinishedIn rs k} := by
  induction rs using List.reverseRecOn with
  | nil =>
      refine Or.inr ⟨fun h => ?_, ?_⟩
      · obtain ⟨k, hk⟩ := List.exists_mem_of_ne_nil expected hne
        obtain ⟨r, hr, -⟩ := h k hk
        cases hr
      · have : own = {k | k ∈ expected ∧ ¬FinishedIn [] k} := by
          ext k
          simp [hsame, FinishedIn]
        rw [run_nil, this]
  | append_singleton rs r ih =>
      have hitem : r.item ∈ expected := hitems r (by simp)
      rw [run_concat]
      rcases ih (fun x hx => hitems x (by simp [hx])) hord.init with ⟨hall, hrun⟩ | ⟨hnot, hrun⟩
      · left
        rw [hrun]
        exact ⟨fun k hk => finishedIn_concat.mpr (Or.inl (hall k hk)), rfl⟩
      · -- a report about an item that is still open, or one that finishes it once more
        have hopen : report {k | k ∈ expected ∧ ¬FinishedIn rs k} r =
            {k | k ∈ expected ∧ ¬FinishedIn (rs ++ [r]) k} := by
          ext k
          simp only [report, finishedIn_concat]
          cases hf : r.finished with
          | true =>
              simp only [if_true, Set.mem_sdiff, Set.mem_ofPred_eq, Set.mem_singleton_iff]
              tauto
          | false =>
              have hr := (hord rs r (List.prefix_refl _) hf).resolve_right hnot
              simp only [Bool.false_eq_true, if_false, Set.mem_insert_iff, Set.mem_ofPred_eq, and_false,
                or_false, or_iff_right_iff_imp]
              rintro rfl
              exact ⟨hitem, hr⟩
        rw [hrun]
        by_cases hall : ∀ k ∈ expected, FinishedIn (rs ++ [r]) k
        · refine Or.inl ⟨hall, step_of_empty ?_⟩
          rw [hopen]
          ext k
          simp only [Set.mem_ofPred_eq, Set.mem_empty_iff_false, iff_false, not_and, not_not]
          exact hall k
        · refine Or.inr ⟨hall, ?_⟩
          rw [← hopen]
          have hall' := hall
          push Not at hall'
          obtain ⟨k, hk, hfin⟩ := hall'
          exact step_of_mem (k := k) (hopen ▸ ⟨hk, hfin⟩)

/-- A list without open items closes with the first finished item, so one expected item is not missed. -/
theorem run_of_single {expected : List α} {p : α} (hsingle : ∀ k ∈ expected, k = p) (rs : List (Report α))
    (hitems : ∀ r ∈ rs, r.item ∈ expected) :
    (FinishedIn rs p ∧ run step (some ∅) rs = none) ∨
      ¬FinishedIn rs p ∧ ∃ s ⊆ {p}, run step (some ∅) rs = some s := by
  induction rs using List.reverseRecOn with
  | nil => exact Or.inr ⟨by simp [FinishedIn], ∅, by simp, rfl⟩
  | append_singleton rs r ih =>
      have hitem : r.item = p := hsingle _ (hitems r (by simp))
      rw [run_concat, finishedIn_concat]
      rcases ih fun x hx => hitems x (by simp [hx]) with ⟨hfin, hrun⟩ | ⟨hnot, s, hs, hrun⟩
      · left
        rw [hrun]
        exact ⟨Or.inl hfin, rfl⟩
      · rw [hrun]
        cases hf : r.finished with
        | true =>
            refine Or.inl ⟨Or.inr ⟨hitem, rfl⟩, step_of_empty ?_⟩
            simp only [report, hf, if_true, hitem]
            rw [Set.eq_empty_iff_forall_notMem]
            exact fun k hk => hk.2 (hs hk.1)
        | false =>
            have hrep : report s r = insert p s := by simp [report, hf, hitem]
            refine Or.inr ⟨by simp [hnot], insert p s, ?_, ?_⟩
            · exact Set.insert_subset rfl hs
            · rw [← hrep]
              exact step_of_mem (k := p) (hrep ▸ Set.mem_insert p s)

/-! ### No other start does -/

/-- Every item of the list finished once. -/
def finish (xs : List α) : List (Report α) := xs.map fun x => ⟨x, true⟩

theorem finishedIn_finish {xs : List α} {k : α} : FinishedIn (finish xs) k ↔ k ∈ xs := by
  simp [FinishedIn, finish]

theorem inOrder_finish (expected xs : List α) : InOrder expected (finish xs) := by
  intro pre r hp hf
  obtain ⟨x, -, rfl⟩ := List.mem_map.mp (hp.subset (by simp : r ∈ pre ++ [r]))
  cases hf

theorem run_finish (own : Set α) (xs : List α) :
    ((xs ≠ [] ∧ ∀ k ∈ own, k ∈ xs) ∧ run step (some own) (finish xs) = none) ∨
      ¬(xs ≠ [] ∧ ∀ k ∈ own, k ∈ xs) ∧ run step (some own) (finish xs) = some (own \ {k | k ∈ xs}) := by
  induction xs using List.reverseRecOn with
  | nil =>
      have hnil : own \ {k | k ∈ ([] : List α)} = own := by
        ext k
        simp
      exact Or.inr ⟨by simp, by rw [hnil]; rfl⟩
  | append_singleton xs x ih =>
      rw [finish, List.map_append, List.map_singleton, run_concat]
      rcases ih with ⟨⟨hne, hsub⟩, hrun⟩ | ⟨hnot, hrun⟩
      · left
        rw [show xs.map (fun x => Report.mk x true) = finish xs from rfl, hrun]
        exact ⟨⟨by simp, fun k hk => by simp [hsub k hk]⟩, rfl⟩
      · rw [show xs.map (fun x => Report.mk x true) = finish xs from rfl, hrun]
        have hrep : report (own \ {k | k ∈ xs}) ⟨x, true⟩ = own \ {k | k ∈ xs ++ [x]} := by
          ext k
          simp [report, and_assoc]
        by_cases hsub : ∀ k ∈ own, k ∈ xs ++ [x]
        · refine Or.inl ⟨⟨by simp, hsub⟩, step_of_empty ?_⟩
          rw [hrep]
          rw [Set.eq_empty_iff_forall_notMem]
          exact fun k hk => hk.2 (hsub k hk.1)
        · refine Or.inr ⟨fun h => hsub h.2, ?_⟩
          rw [← hrep]
          push Not at hsub
          obtain ⟨k, hk, hkx⟩ := hsub
          exact step_of_mem (k := k) (hrep ▸ ⟨hk, hkx⟩)

section Finishing

variable {own : Set α} {expected : List α}
  (h : ∀ xs, (∀ x ∈ xs, x ∈ expected) → ClosesWith own expected (finish xs))

include h

/-- Finishing everything closes the list, so nothing else was open. -/
theorem mem_expected_of_closes : ∀ k ∈ own, k ∈ expected := by
  have hclosed := (h expected fun _ hx => hx).mpr fun k hk => finishedIn_finish.mpr hk
  rcases run_finish own expected with ⟨hs, -⟩ | ⟨-, hrun⟩
  · exact hs.2
  · rw [hrun] at hclosed
    cases hclosed

/-- Finishing everything but an item that was not open at the start must not close the list. -/
theorem filter_eq_nil_of_closes [DecidableEq α] {p : α} (hp : p ∈ expected) (hown : p ∉ own) :
    expected.filter (· ≠ p) = [] := by
  have hin : ∀ k ∈ own, k ∈ expected.filter (· ≠ p) := by
    intro k hk
    have hne : k ≠ p := fun hkp => hown (hkp ▸ hk)
    exact List.mem_filter.mpr ⟨mem_expected_of_closes h k hk, decide_eq_true hne⟩
  by_contra hnil
  have hiff := h (expected.filter (· ≠ p)) fun x hx => (List.mem_filter.mp hx).1
  rcases run_finish own (expected.filter (· ≠ p)) with ⟨-, hrun⟩ | ⟨hno, -⟩
  · have hfin := finishedIn_finish.mp (hiff.mp hrun p hp)
    simp at hfin
  · exact hno ⟨hnil, hin⟩

end Finishing

/-- **When a checklist closes in time.** -/
theorem closes_iff (own : Set α) {expected : List α} (hne : expected ≠ []) :
    (∀ rs, (∀ r ∈ rs, r.item ∈ expected) → InOrder expected rs → ClosesWith own expected rs) ↔
      (∀ k, k ∈ own ↔ k ∈ expected) ∨ own = ∅ ∧ ∃ p, ∀ k ∈ expected, k = p := by
  constructor
  · intro h
    have hfinish : ∀ xs, (∀ x ∈ xs, x ∈ expected) → ClosesWith own expected (finish xs) := by
      refine fun xs hxs => h _ (fun r hr => ?_) (inOrder_finish expected xs)
      obtain ⟨x, hx, rfl⟩ := List.mem_map.mp hr
      exact hxs x hx
    have hsub : ∀ k ∈ own, k ∈ expected := mem_expected_of_closes hfinish
    by_cases hall : ∀ k ∈ expected, k ∈ own
    · exact Or.inl fun k => ⟨hsub k, hall k⟩
    · push Not at hall
      obtain ⟨p, hp, hown⟩ := hall
      classical
      have hnil : expected.filter (· ≠ p) = [] := filter_eq_nil_of_closes hfinish hp hown
      have honly : ∀ k ∈ expected, k = p := by
        intro k hk
        by_contra hkp
        have hmem : k ∈ expected.filter (· ≠ p) := List.mem_filter.mpr ⟨hk, decide_eq_true hkp⟩
        exact List.not_mem_nil (hnil ▸ hmem)
      refine Or.inr ⟨Set.eq_empty_iff_forall_notMem.mpr fun k hk => ?_, p, honly⟩
      exact hown (honly k (hsub k hk) ▸ hk)
  · intro h' rs hitems hord
    rcases h' with hsame | ⟨rfl, p, hp⟩
    · rcases run_of_same hne hsame rs hitems hord with ⟨hall, hrun⟩ | ⟨hnot, hrun⟩
      · exact ⟨fun _ => hall, fun _ => hrun⟩
      · exact ⟨fun h => absurd (hrun.symm.trans h) (by simp), fun h => absurd h hnot⟩
    · have hmem : p ∈ expected := by
        obtain ⟨k, hk⟩ := List.exists_mem_of_ne_nil expected hne
        exact hp k hk ▸ hk
      have hall : (∀ k ∈ expected, FinishedIn rs k) ↔ FinishedIn rs p :=
        ⟨fun h => h p hmem, fun h k hk => hp k hk ▸ h⟩
      rw [ClosesWith, hall]
      rcases run_of_single hp rs hitems with ⟨hfin, hrun⟩ | ⟨hnot, s, -, hrun⟩
      · exact ⟨fun _ => hfin, fun _ => hrun⟩
      · exact ⟨fun h => absurd (hrun.symm.trans h) (by simp), fun h => absurd h hnot⟩

end Pinnokio.Checklist
