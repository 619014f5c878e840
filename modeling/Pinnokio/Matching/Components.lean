import Pinnokio.Matching.IndexedPairs

/-!
# The components of a score

The score of a pair is a weighted sum of five components, each of which `_score_pair` computes from other fields of the
transaction and the document.

* `scorePair_eq` — the score and its details, from the components;
* `scoreAmount_eq_iff` — when two comparisons of amounts have the same score;
* `round_components` — the components of the amount and of the currency are not changed by rounding.
-/

namespace Pinnokio.Matching

open Pinnokio.Text Pinnokio.Numbers

/-! ### Amounts -/

section Amounts

variable {A : Rounding} {x y y' tolerance : ℚ} {isFx : Bool}

/-- The relative difference of two amounts. -/
def diffRatio (A : Rounding) (x y : ℚ) : ℚ := A.div |A.sub x y| (max |x| |y|)

/-- The scores of amounts, and 0. -/
def amountScores : List ℚ := [95 / 100, 85 / 100, 70 / 100, 60 / 100, 55 / 100, 40 / 100, 0]

/-- Scores of amounts are between zero and one, and have three decimals. -/
theorem amountScores_decimal : ∀ s ∈ amountScores, 0 ≤ s ∧ s ≤ 1 ∧ roundTo 3 s = s := by decide +kernel

theorem scoreAmount_mem (A : Rounding) (x y tolerance : ℚ) (isFx : Bool) :
    ∃ s ∈ amountScores, scoreAmount A x y tolerance isFx = A.lit s := by
  have hmem : ∀ s ∈ amountScores, ∃ s' ∈ amountScores, A.lit s = A.lit s' := fun s hs => ⟨s, hs, rfl⟩
  have hzero : ∃ s ∈ amountScores, (0 : ℚ) = A.lit s := ⟨0, by simp [amountScores], A.lit_zero.symm⟩
  rw [scoreAmount]
  split
  · exact hzero
  · dsimp only
    split_ifs
    all_goals first
      | exact hzero
      | exact hmem _ (by simp [amountScores])

theorem scoreAmount_unit (A : Rounding) (x y tolerance : ℚ) (isFx : Bool) :
    0 ≤ scoreAmount A x y tolerance isFx ∧ scoreAmount A x y tolerance isFx ≤ 1 := by
  obtain ⟨s, hs, heq⟩ := scoreAmount_mem A x y tolerance isFx
  obtain ⟨hlo, hhi, -⟩ := amountScores_decimal s hs
  rw [heq]
  exact A.lit_unit hlo hhi

/-- A score of amounts is not changed by rounding. -/
theorem round_scoreAmount (A : Rounding) (x y tolerance : ℚ) (isFx : Bool) :
    A.round 3 (scoreAmount A x y tolerance isFx) = scoreAmount A x y tolerance isFx := by
  obtain ⟨s, hs, heq⟩ := scoreAmount_mem A x y tolerance isFx
  rw [heq]
  exact A.round_lit (amountScores_decimal s hs).2.2

/-- The bands of amounts in two currencies: a score, and the relative difference up to which it is given. -/
def fxBands (A : Rounding) (tolerance : ℚ) : List (ℚ × ℚ) :=
  [(A.lit (95 / 100), A.lit (2 / 100)), (A.lit (85 / 100), max (A.lit (2 / 100)) tolerance),
    (A.lit (70 / 100), max (A.lit (10 / 100)) tolerance), (A.lit (55 / 100), max (A.lit (15 / 100)) tolerance),
    (A.lit (40 / 100), max (A.lit (20 / 100)) tolerance)]

/-- The scores of the bands are told apart, and their ends are in order. -/
theorem bands_lt (A : Rounding) :
    (0 < A.lit (40 / 100) ∧ A.lit (40 / 100) < A.lit (55 / 100) ∧ A.lit (55 / 100) < A.lit (70 / 100) ∧
      A.lit (70 / 100) < A.lit (85 / 100) ∧ A.lit (85 / 100) < A.lit (95 / 100)) ∧
      A.lit (2 / 100) ≤ A.lit (10 / 100) ∧ A.lit (10 / 100) ≤ A.lit (15 / 100) ∧
      A.lit (15 / 100) ≤ A.lit (20 / 100) := by
  have hlt {s s' : ℚ} (hs : s ∈ amountScores) (hs' : s' ∈ amountScores) (h : s < s') : A.lit s < A.lit s' := by
    obtain ⟨hlo, hhi, hgrid⟩ := amountScores_decimal s hs
    obtain ⟨hlo', hhi', hgrid'⟩ := amountScores_decimal s' hs'
    exact (A.lit_lt_lit_iff hgrid hgrid' (by rwa [abs_of_nonneg hlo]) (by rwa [abs_of_nonneg hlo'])).mpr h
  have hle {s s' : ℚ} (h : s ≤ s') : A.lit s ≤ A.lit s' := A.mono h
  refine ⟨⟨?_, ?_, ?_, ?_, ?_⟩, hle (by norm_num), hle (by norm_num), hle (by norm_num)⟩
  · rw [← A.lit_zero]
    exact hlt (by simp [amountScores]) (by simp [amountScores]) (by norm_num)
  all_goals exact hlt (by simp [amountScores]) (by simp [amountScores]) (by norm_num)

/-- **What a score of amounts in two currencies says.** -/
theorem band_iff (hx : x ≠ 0) {band : ℚ × ℚ} (hband : band ∈ fxBands A tolerance) :
    band.1 ≤ scoreAmount A x y tolerance true ↔ y ≠ 0 ∧ diffRatio A x y ≤ band.2 := by
  obtain ⟨⟨h0, h1, h2, h3, h4⟩, h5, h6, h7⟩ := bands_lt A
  simp only [fxBands, List.mem_cons, List.not_mem_nil, or_false] at hband
  by_cases hy : y = 0
  · have hpos : 0 < band.1 := by rcases hband with rfl | rfl | rfl | rfl | rfl <;> grind
    rw [scoreAmount, if_pos (.inr hy)]
    exact iff_of_false (not_le.mpr hpos) fun h => h.1 hy
  · rw [scoreAmount, if_neg (not_or.mpr ⟨hx, hy⟩), diffRatio, and_iff_right hy]
    generalize A.div |A.sub x y| (max |x| |y|) = r
    simp only [reduceIte, and_true]
    rcases hband with rfl | rfl | rfl | rfl | rfl
    all_goals
      simp only [le_max_iff]
      split_ifs
    all_goals grind

/-- Every score of amounts in two currencies but 0 has its band. -/
theorem exists_band (A : Rounding) (x y tolerance : ℚ) : scoreAmount A x y tolerance true = 0 ∨
    ∃ band ∈ fxBands A tolerance, band.1 = scoreAmount A x y tolerance true := by
  rw [scoreAmount]
  simp only [reduceIte, and_true, fxBands, List.exists_mem_cons_iff, List.not_mem_nil, false_and, exists_false, or_false]
  split_ifs <;> simp

theorem scoreAmount_le_of_bands (hx : x ≠ 0)
    (h : ∀ band ∈ fxBands A tolerance,
      y ≠ 0 ∧ diffRatio A x y ≤ band.2 → y' ≠ 0 ∧ diffRatio A x y' ≤ band.2) :
    scoreAmount A x y tolerance true ≤ scoreAmount A x y' tolerance true := by
  rcases exists_band A x y tolerance with hzero | ⟨band, hband, heq⟩
  · rw [hzero]
    exact (scoreAmount_unit A x y' tolerance true).1
  · rw [← heq]
    exact (band_iff hx hband).mpr (h band hband ((band_iff hx hband).mp heq.le))

/-- **When two comparisons of amounts have the same score.** -/
theorem scoreAmount_eq_iff (hx : x ≠ 0) :
    scoreAmount A x y tolerance true = scoreAmount A x y' tolerance true ↔
      ∀ band ∈ fxBands A tolerance,
        (y ≠ 0 ∧ diffRatio A x y ≤ band.2 ↔ y' ≠ 0 ∧ diffRatio A x y' ≤ band.2) := by
  constructor
  · intro heq band hband
    rw [← band_iff hx hband, ← band_iff hx hband, heq]
  · intro h
    apply le_antisymm
    · exact scoreAmount_le_of_bands hx fun band hband => (h band hband).mp
    · exact scoreAmount_le_of_bands hx fun band hband => (h band hband).mpr

end Amounts

/-! ### Weights and components -/

attribute [ext] ScoreDetails

/-- The weighted sum of components. -/
def Weights.total (A : Rounding) (w : Weights) (s : ScoreDetails) : ℚ :=
  A.add (A.add (A.add (A.add (A.mul w.amount s.amount) (A.mul w.date s.date)) (A.mul w.text s.text))
    (A.mul w.reference s.reference)) (A.mul w.currency s.currency)

/-- Components, rounded to three decimals. -/
def ScoreDetails.rounded (A : Rounding) (s : ScoreDetails) : ScoreDetails :=
  ⟨A.round 3 s.amount, A.round 3 s.date, A.round 3 s.text, A.round 3 s.reference, A.round 3 s.currency⟩

namespace BulkMatchingEngine

variable (e : BulkMatchingEngine)

/-- The weights of a pair. -/
def pairWeights (tx : Tx) (c : Candidate) (type : DocType) : Weights :=
  adjustedWeights e.numbers (if type = .invoice then e.config.invoiceWeights else e.config.expenseWeights)
    (decide (normalizeCurrency tx.currency ≠ normalizeCurrency c.currency))

/-- The amount that a transaction is compared with. -/
def comparedAmount (tx : Tx) (c : Candidate) : ℚ :=
  (e.pairRate tx c).elim |c.amount| fun rate => e.numbers.div |c.amount| rate

/-- The components of a pair. -/
def components (tx : Tx) (c : Candidate) (type : DocType) : ScoreDetails where
  amount := scoreAmount e.numbers |tx.amount| (e.comparedAmount tx c) (e.pairTolerance tx c)
    (decide (normalizeCurrency tx.currency ≠ normalizeCurrency c.currency))
  date := scoreDate e.numbers (parseDate tx.date) (candidateFields c type).1 (decide (type = .expense))
  text := textSimilarity e.python (buildTxText tx) (candidateFields c type).2.1
  reference :=
    if (candidateFields c type).2.2 = "" then 0
    else textSimilarity e.python (tx.reference ++ " " ++ tx.paymentRef) (candidateFields c type).2.2
  currency :=
    if normalizeCurrency tx.currency = normalizeCurrency c.currency then 1
    else if (e.pairRate tx c).isSome ∨
      normalizeCurrency tx.currency ∈ mainCurrencies ∧ normalizeCurrency c.currency ∈ mainCurrencies then
      e.numbers.lit (7 / 10)
    else e.numbers.lit (5 / 10)

section Components

variable {e} {tx : Tx} {c : Candidate} {type : DocType}

theorem pairRate_pos {rate : ℚ} (h : e.pairRate tx c = some rate) : 0 < rate := by
  rw [pairRate] at h
  split at h
  · exact of_decide_eq_true (Option.filter_eq_some_iff.mp h).2
  · cases h

@[simp] theorem components_amount : (e.components tx c type).amount =
    scoreAmount e.numbers |tx.amount| (e.comparedAmount tx c) (e.pairTolerance tx c)
      (decide (normalizeCurrency tx.currency ≠ normalizeCurrency c.currency)) := by
  rw [components]

@[simp] theorem components_date : (e.components tx c type).date =
    scoreDate e.numbers (parseDate tx.date) (candidateFields c type).1 (decide (type = .expense)) := by
  rw [components]

@[simp] theorem components_text : (e.components tx c type).text =
    textSimilarity e.python (buildTxText tx) (candidateFields c type).2.1 := by
  rw [components]

@[simp] theorem components_reference : (e.components tx c type).reference =
    if (candidateFields c type).2.2 = "" then 0
    else textSimilarity e.python (tx.reference ++ " " ++ tx.paymentRef) (candidateFields c type).2.2 := by
  rw [components]

@[simp] theorem components_currency : (e.components tx c type).currency =
    if normalizeCurrency tx.currency = normalizeCurrency c.currency then 1
    else if (e.pairRate tx c).isSome ∨
      normalizeCurrency tx.currency ∈ mainCurrencies ∧ normalizeCurrency c.currency ∈ mainCurrencies then
      e.numbers.lit (7 / 10)
    else e.numbers.lit (5 / 10) := by
  rw [components]

/-- The components of the amount and of the currency are not changed by rounding. -/
theorem round_components : e.numbers.round 3 (e.components tx c type).amount = (e.components tx c type).amount ∧
    e.numbers.round 3 (e.components tx c type).currency = (e.components tx c type).currency := by
  constructor
  · rw [components_amount, round_scoreAmount]
  · rw [components_currency]
    split_ifs
    · exact e.numbers.round_one
    · exact e.numbers.round_lit (by decide +kernel)
    · exact e.numbers.round_lit (by decide +kernel)

theorem scorePair_of_zero (h : c.amount = 0) : e.scorePair tx c type = (0, ⟨0, 0, 0, 0, 0⟩) := by
  simp only [scorePair]
  rw [if_pos (abs_eq_zero.mpr h)]

/-- **The score and its details.** -/
theorem scorePair_eq (h : c.amount ≠ 0) : e.scorePair tx c type =
    (e.numbers.round 3 ((e.pairWeights tx c type).total e.numbers (e.components tx c type)),
      (e.components tx c type).rounded e.numbers) := by
  have hrate : (if decide (normalizeCurrency tx.currency ≠ normalizeCurrency c.currency) = true ∧
      ¬e.fxRates.isEmpty then positiveRate e.fxRates (normalizeCurrency c.currency) tx.date else none) =
      e.pairRate tx c := by
    simp only [pairRate, decide_eq_true_eq]
  simp only [scorePair]
  rw [if_neg (abs_ne_zero.mpr h), hrate]
  simp only [Weights.total, ScoreDetails.rounded, components, comparedAmount, pairWeights, pairTolerance,
    decide_eq_true_eq, not_not]
  cases e.pairRate tx c with
  | none => simp only [Option.elim_none]
  | some rate => simp only [Option.elim_some]

end Components

end BulkMatchingEngine

end Pinnokio.Matching
