import Mathlib.Data.String.Basic
import Pinnokio.Matching.Scoring

/-!
# The rate of a day

`get_fx_rate_for_date` looks at the day itself, at the last day of the table that is not after it, and at the first day
after it.  A table has days on which a currency has no rate, and the lookup goes no further than these days: the last
day not after the date is the date itself as soon as the table has it, with or without the currency.

* `getFxRateForDate_of_lastDay`, `getFxRateForDate_of_gap` — the two days at which the lookup looks;
* `lookup_iff` — **when the rate is that of the nearest day that has one**.
-/

namespace Pinnokio.Matching

open Pinnokio.Text

/-! ### Sorted lists -/

section Sorted

variable {α : Type*} {r : α → α → Prop} {l : List α} {x y : α}

theorem rel_getLast?_of_pairwise (h : l.Pairwise r) (hlast : l.getLast? = some x) (hy : y ∈ l) : y = x ∨ r y x := by
  obtain ⟨front, rfl⟩ := List.getLast?_eq_some_iff.mp hlast
  rcases List.mem_append.mp hy with hy | hy
  · exact .inr ((List.pairwise_append.mp h).2.2 y hy x (List.mem_singleton_self x))
  · exact .inl (List.mem_singleton.mp hy)

theorem rel_head?_of_pairwise (h : l.Pairwise r) (hhead : l.head? = some x) (hy : y ∈ l) : y = x ∨ r x y := by
  obtain ⟨tail, rfl⟩ := List.head?_eq_some_iff.mp hhead
  rcases List.mem_cons.mp hy with hy | hy
  · exact .inl hy
  · exact .inr (List.rel_of_pairwise_cons h hy)

end Sorted

/-! ### Days -/

/-- The last day of a table that is not after a date. -/
def LastDay (rates : FxRates) (date day : String) : Prop :=
  day ∈ rates.keys ∧ day ≤ date ∧ ∀ d ∈ rates.keys, d ≤ date → d ≤ day

/-- The first day of a table after a date. -/
def NextDay (rates : FxRates) (date day : String) : Prop :=
  day ∈ rates.keys ∧ date < day ∧ ∀ d ∈ rates.keys, date < d → day ≤ d

/-- The rate of the last day not after a date that has one. -/
def LatestRate (rates : FxRates) (target date : String) (rate : ℚ) : Prop :=
  ∃ day ≤ date, rateOn rates target day = some rate ∧ ∀ d ≤ date, rateOn rates target d ≠ none → d ≤ day

/-- The rate of the first day after a date that has one. -/
def EarliestRate (rates : FxRates) (target date : String) (rate : ℚ) : Prop :=
  ∃ day, date < day ∧ rateOn rates target day = some rate ∧ ∀ d, date < d → rateOn rates target d ≠ none → day ≤ d

/-- What a lookup is to find: the rate of the last day not after the date that has one, or else that of the first day
after it that has one, and nothing only where no day has one. -/
def IsRateFor (rates : FxRates) (target date : String) : Option ℚ → Prop
  | some rate =>
      LatestRate rates target date rate ∨
        (∀ d ≤ date, rateOn rates target d = none) ∧ EarliestRate rates target date rate
  | none => ∀ d, rateOn rates target d = none

/-- The nearest days of a table are those with the currency: the last day not after the date has a rate of it; or no
day has one; or the next day has one, and no day before has another. -/
def NearestDayHasRate (rates : FxRates) (target date : String) : Prop :=
  (∃ day, LastDay rates date day ∧ rateOn rates target day ≠ none) ∨
    (∀ d, rateOn rates target d = none) ∨
      ∃ day rate, NextDay rates date day ∧ rateOn rates target day = some rate ∧
        ((∀ d ≤ date, rateOn rates target d = none) ∨ LatestRate rates target date rate)

section Days

variable {rates : FxRates} {target date day : String} {rate : ℚ}

theorem mem_keys_of_rateOn (h : rateOn rates target day ≠ none) : day ∈ rates.keys := by
  obtain ⟨rate, hrate⟩ := Option.ne_none_iff_exists'.mp h
  obtain ⟨dayRates, hday, -⟩ := Option.bind_eq_some_iff.mp hrate
  exact Dict.mem_keys_of_get? hday

theorem LastDay.unique {day' : String} (h : LastDay rates date day) (h' : LastDay rates date day') : day = day' :=
  le_antisymm (h'.2.2 day h.1 h.2.1) (h.2.2 day' h'.1 h'.2.1)

theorem NextDay.unique {day' : String} (h : NextDay rates date day) (h' : NextDay rates date day') : day = day' :=
  le_antisymm (h.2.2 day' h'.1 h'.2.1) (h'.2.2 day h.1 h.2.1)

theorem LastDay.latestRate (h : LastDay rates date day) (hrate : rateOn rates target day = some rate) :
    LatestRate rates target date rate :=
  ⟨day, h.2.1, hrate, fun d hd hsome => h.2.2 d (mem_keys_of_rateOn hsome) hd⟩

theorem NextDay.earliestRate (h : NextDay rates date day) (hrate : rateOn rates target day = some rate) :
    EarliestRate rates target date rate :=
  ⟨day, h.2.1, hrate, fun d hd hsome => h.2.2 d (mem_keys_of_rateOn hsome) hd⟩

/-- The day that the lookup finds not after the date. -/
theorem getLast?_eq_lastDay (rates : FxRates) (date : String) :
    match ((rates.keys.insertionSort (· ≤ ·)).filter fun d => d ≤ date).getLast? with
    | some day => LastDay rates date day
    | none => ∀ d ∈ rates.keys, ¬d ≤ date := by
  have hmem (d : String) : d ∈ (rates.keys.insertionSort (· ≤ ·)).filter (fun d => d ≤ date) ↔
      d ∈ rates.keys ∧ d ≤ date := by
    rw [List.mem_filter, List.mem_insertionSort, decide_eq_true_iff]
  split
  · next day hlast =>
    obtain ⟨hkey, hle⟩ := (hmem day).mp (List.mem_of_getLast? hlast)
    refine ⟨hkey, hle, fun d hd hdle => ?_⟩
    have hsorted := (List.pairwise_insertionSort (· ≤ ·) rates.keys).filter fun d => d ≤ date
    exact (rel_getLast?_of_pairwise hsorted hlast ((hmem d).mpr ⟨hd, hdle⟩)).elim (fun heq => heq.le) id
  · next hnone =>
    intro d hd hdle
    have hd' := (hmem d).mpr ⟨hd, hdle⟩
    rw [List.getLast?_eq_none_iff.mp hnone] at hd'
    exact List.not_mem_nil hd'

/-- The day that the lookup finds after the date. -/
theorem head?_eq_nextDay (rates : FxRates) (date : String) :
    match ((rates.keys.insertionSort (· ≤ ·)).filter fun d => date < d).head? with
    | some day => NextDay rates date day
    | none => ∀ d ∈ rates.keys, ¬date < d := by
  have hmem (d : String) : d ∈ (rates.keys.insertionSort (· ≤ ·)).filter (fun d => date < d) ↔
      d ∈ rates.keys ∧ date < d := by
    rw [List.mem_filter, List.mem_insertionSort, decide_eq_true_iff]
  split
  · next day hhead =>
    obtain ⟨hkey, hlt⟩ := (hmem day).mp (List.mem_of_head? hhead)
    refine ⟨hkey, hlt, fun d hd hdlt => ?_⟩
    have hsorted := (List.pairwise_insertionSort (· ≤ ·) rates.keys).filter fun d => date < d
    exact (rel_head?_of_pairwise hsorted hhead ((hmem d).mpr ⟨hd, hdlt⟩)).elim (fun heq => heq.symm.le) id
  · next hnone =>
    intro d hd hdlt
    have hd' := (hmem d).mpr ⟨hd, hdlt⟩
    rw [List.head?_eq_none_iff.mp hnone] at hd'
    exact List.not_mem_nil hd'

end Days

/-! ### The lookup -/

section Lookup

variable {rates : FxRates} {targetCurrency date day : String} {rate : ℚ}

/-- The last day not after the date decides where it has a rate. -/
theorem getFxRateForDate_of_lastDay (h : LastDay rates date day)
    (hrate : rateOn rates (normalizeCurrency targetCurrency) day = some rate) :
    getFxRateForDate rates targetCurrency date = some rate := by
  dsimp only [getFxRateForDate]
  split
  · next found hfound =>
    have hdate : date ∈ rates.keys := mem_keys_of_rateOn (by rw [hfound]; exact Option.some_ne_none found)
    have heq : date = day := le_antisymm (h.2.2 date hdate le_rfl) h.2.1
    rw [← hfound, heq, hrate]
  · have hlast := getLast?_eq_lastDay rates date
    split at hlast
    · next day' hday' =>
      rw [hlast.unique h] at hday'
      rw [hday', Option.bind_some, hrate]
    · exact absurd h.2.1 (hlast day h.1)

/-- Where the last day has no rate, the lookup looks at the first day after the date. -/
theorem getFxRateForDate_of_gap
    (hlast : ∀ day, LastDay rates date day → rateOn rates (normalizeCurrency targetCurrency) day = none) :
    getFxRateForDate rates targetCurrency date =
      (((rates.keys.insertionSort (· ≤ ·)).filter fun d => date < d).head?).bind
        (rateOn rates (normalizeCurrency targetCurrency)) := by
  have hdate : rateOn rates (normalizeCurrency targetCurrency) date = none := by
    by_contra hsome
    exact hsome (hlast date ⟨mem_keys_of_rateOn hsome, le_rfl, fun d _ hd => hd⟩)
  have hbefore : (((rates.keys.insertionSort (· ≤ ·)).filter fun d => d ≤ date).getLast?).bind
      (rateOn rates (normalizeCurrency targetCurrency)) = none := by
    have hfound := getLast?_eq_lastDay rates date
    split at hfound
    · next day hday => rw [hday, Option.bind_some, hlast day hfound]
    · next hnone => rw [hnone, Option.bind_none]
  simp only [getFxRateForDate, hdate, hbefore]

theorem getFxRateForDate_of_nextDay
    (hlast : ∀ day, LastDay rates date day → rateOn rates (normalizeCurrency targetCurrency) day = none)
    (h : NextDay rates date day) :
    getFxRateForDate rates targetCurrency date = rateOn rates (normalizeCurrency targetCurrency) day := by
  rw [getFxRateForDate_of_gap hlast]
  have hfound := head?_eq_nextDay rates date
  split at hfound
  · next day' hday' => rw [hday', Option.bind_some, hfound.unique h]
  · exact absurd h.2.1 (hfound day h.1)

theorem getFxRateForDate_of_no_nextDay
    (hlast : ∀ day, LastDay rates date day → rateOn rates (normalizeCurrency targetCurrency) day = none)
    (h : ∀ day, ¬NextDay rates date day) : getFxRateForDate rates targetCurrency date = none := by
  rw [getFxRateForDate_of_gap hlast]
  have hfound := head?_eq_nextDay rates date
  split at hfound
  · exact absurd hfound (h _)
  · next hnone => rw [hnone, Option.bind_none]

/-- A rate that the next day gives. -/
theorem isRateFor_nextDay_iff {target : String} (hnext : NextDay rates date day)
    (hrate : rateOn rates target day = some rate) : IsRateFor rates target date (some rate) ↔
      (∀ d ≤ date, rateOn rates target d = none) ∨ LatestRate rates target date rate := by
  constructor
  · rintro (hlatest | ⟨hnone, -⟩)
    · exact .inr hlatest
    · exact .inl hnone
  · rintro (hnone | hlatest)
    · exact .inr ⟨hnone, hnext.earliestRate hrate⟩
    · exact .inl hlatest

/-- **When the rate is that of the nearest day that has one.** -/
theorem lookup_iff (rates : FxRates) (targetCurrency date : String) :
    IsRateFor rates (normalizeCurrency targetCurrency) date (getFxRateForDate rates targetCurrency date) ↔
      NearestDayHasRate rates (normalizeCurrency targetCurrency) date := by
  rw [NearestDayHasRate]
  by_cases hlast : ∃ day, LastDay rates date day ∧ rateOn rates (normalizeCurrency targetCurrency) day ≠ none
  · refine iff_of_true ?_ (.inl hlast)
    obtain ⟨day, hday, hsome⟩ := hlast
    obtain ⟨rate, hrate⟩ := Option.ne_none_iff_exists'.mp hsome
    rw [getFxRateForDate_of_lastDay hday hrate]
    exact .inl (hday.latestRate hrate)
  · have hgap (day : String) (hday : LastDay rates date day) :
        rateOn rates (normalizeCurrency targetCurrency) day = none := by
      by_contra hsome
      exact hlast ⟨day, hday, hsome⟩
    rw [or_iff_right hlast]
    by_cases hnext : ∃ day, NextDay rates date day
    · obtain ⟨day, hday⟩ := hnext
      rw [getFxRateForDate_of_nextDay hgap hday]
      cases hrate : rateOn rates (normalizeCurrency targetCurrency) day with
      | none =>
          refine (or_iff_left ?_).symm
          rintro ⟨day', rate, hday', hrate', -⟩
          rw [hday'.unique hday, hrate] at hrate'
          cases hrate'
      | some rate =>
          have hsome : ¬∀ d, rateOn rates (normalizeCurrency targetCurrency) d = none := by
            intro hnone
            rw [hnone day] at hrate
            cases hrate
          rw [or_iff_right hsome, isRateFor_nextDay_iff hday hrate]
          constructor
          · intro h
            exact ⟨day, rate, hday, hrate, h⟩
          · rintro ⟨day', rate', hday', hrate', h⟩
            rw [hday'.unique hday, hrate] at hrate'
            cases hrate'
            exact h
    · rw [getFxRateForDate_of_no_nextDay hgap fun day hday => hnext ⟨day, hday⟩]
      refine (or_iff_left ?_).symm
      rintro ⟨day, rate, hday, -⟩
      exact hnext ⟨day, hday⟩

/-- Rates of two days, of which the second one has no euros. -/
def gapRates : FxRates :=
  Dict.ofList [("2026-03-04", Dict.ofList [("EUR", 94 / 100), ("USD", 108 / 100)]),
    ("2026-03-05", Dict.ofList [("USD", 107 / 100)])]

/-- The day before is not looked at. -/
theorem rate_of_day_before_missed : ¬∀ (rates : FxRates) (targetCurrency date : String),
    IsRateFor rates (normalizeCurrency targetCurrency) date (getFxRateForDate rates targetCurrency date) := by
  intro h
  have hlookup := h gapRates "EUR" "2026-03-05"
  have hnone : getFxRateForDate gapRates "EUR" "2026-03-05" = none := by decide +kernel
  rw [hnone] at hlookup
  exact absurd (hlookup "2026-03-04") (by decide +kernel)

end Lookup

end Pinnokio.Matching
