import Pinnokio.Matching.Components

/-!
# Spellings of a date

The date of a transaction is used twice: parsed, for the component of the date, and as the text it is, for the lookup of
the rate that a document in another currency is converted with.  Two spellings of a day are one day for the component
and two places in a table of rates.

* `components_respelled` — what another spelling changes;
* `scorePair_respelled_iff` — **when the score does not depend on the spelling**.
-/

namespace Pinnokio.Matching.BulkMatchingEngine

open Pinnokio.Text Pinnokio.Numbers

variable (e : BulkMatchingEngine)

/-- The transaction with its date spelled otherwise. -/
def respelled (tx : Tx) (date : String) : Tx := { tx with date := date }

/-- Both spellings find a rate, or neither does. -/
def RatesAlike (tx : Tx) (c : Candidate) (date : String) : Prop :=
  (e.pairRate tx c).isSome = (e.pairRate (respelled tx date) c).isSome

/-- The amount that the transaction is compared with is not rounded to zero, and within a part of it. -/
def Within (tx : Tx) (c : Candidate) (part : ℚ) : Prop :=
  e.comparedAmount tx c ≠ 0 ∧ diffRatio e.numbers |tx.amount| (e.comparedAmount tx c) ≤ part

/-- Both spellings compare the transaction with amounts of the same band. -/
def BandsAlike (tx : Tx) (c : Candidate) (date : String) : Prop :=
  ∀ band ∈ fxBands e.numbers e.config.amountToleranceFx,
    (e.Within tx c band.2 ↔ e.Within (respelled tx date) c band.2)

instance (tx : Tx) (c : Candidate) (part : ℚ) : Decidable (e.Within tx c part) := inferInstanceAs (Decidable (_ ∧ _))

instance (tx : Tx) (c : Candidate) (date : String) : Decidable (e.BandsAlike tx c date) :=
  inferInstanceAs (Decidable (∀ band ∈ fxBands e.numbers e.config.amountToleranceFx,
    (e.Within tx c band.2 ↔ e.Within (respelled tx date) c band.2)))

instance (tx : Tx) (c : Candidate) (date : String) : Decidable (e.RatesAlike tx c date) :=
  inferInstanceAs (Decidable (_ = _))

/-- The spelling does not matter: the document has no amount; or both have one currency; or both spellings find a rate
or neither does, unless both currencies are main ones, and the transaction has no amount or is compared with amounts of
the same band. -/
def SpellingIrrelevant (tx : Tx) (c : Candidate) (date : String) : Prop :=
  c.amount = 0 ∨ normalizeCurrency tx.currency = normalizeCurrency c.currency ∨
    (e.RatesAlike tx c date ∨
      normalizeCurrency tx.currency ∈ mainCurrencies ∧ normalizeCurrency c.currency ∈ mainCurrencies) ∧
      (tx.amount = 0 ∨ e.BandsAlike tx c date)

instance (tx : Tx) (c : Candidate) (date : String) : Decidable (e.SpellingIrrelevant tx c date) :=
  inferInstanceAs (Decidable (_ ∨ _ ∨ (_ ∨ _) ∧ (_ ∨ _)))

section Respelled

variable {e} {tx : Tx} {c : Candidate} {type : DocType} {date : String}

theorem pairRate_of_same (h : normalizeCurrency tx.currency = normalizeCurrency c.currency) : e.pairRate tx c = none := by
  rw [pairRate, if_neg fun hboth => hboth.1 h]

/-- **What another spelling leaves**: the components of the date, the text and the reference. -/
theorem components_respelled (e : BulkMatchingEngine) (c : Candidate) (type : DocType)
    (hday : parseDate date = parseDate tx.date) :
    (e.components (respelled tx date) c type).date = (e.components tx c type).date ∧
      (e.components (respelled tx date) c type).text = (e.components tx c type).text ∧
      (e.components (respelled tx date) c type).reference = (e.components tx c type).reference := by
  refine ⟨?_, rfl, rfl⟩
  rw [components_date, components_date, respelled, hday]

theorem pairWeights_respelled : e.pairWeights (respelled tx date) c type = e.pairWeights tx c type := rfl

theorem components_of_same (h : normalizeCurrency tx.currency = normalizeCurrency c.currency) :
    (e.components (respelled tx date) c type).amount = (e.components tx c type).amount ∧
      (e.components (respelled tx date) c type).currency = (e.components tx c type).currency := by
  have hrate : e.pairRate (respelled tx date) c = none := pairRate_of_same h
  constructor
  · rw [components_amount, components_amount, comparedAmount, comparedAmount, hrate, pairRate_of_same h]
    rfl
  · rw [components_currency, components_currency, hrate, pairRate_of_same h]
    rfl

theorem currency_respelled_iff (hne : normalizeCurrency tx.currency ≠ normalizeCurrency c.currency) :
    (e.components (respelled tx date) c type).currency = (e.components tx c type).currency ↔
      e.RatesAlike tx c date ∨
        normalizeCurrency tx.currency ∈ mainCurrencies ∧ normalizeCurrency c.currency ∈ mainCurrencies := by
  have hparts : e.numbers.lit (7 / 10) ≠ e.numbers.lit (5 / 10) := by
    refine ne_of_gt ((e.numbers.lit_lt_lit_iff ?_ ?_ ?_ ?_).mpr (by norm_num)) <;> decide +kernel
  have hne' : normalizeCurrency (respelled tx date).currency ≠ normalizeCurrency c.currency := hne
  rw [components_currency, components_currency, if_neg hne, if_neg hne', RatesAlike]
  by_cases hmain : normalizeCurrency tx.currency ∈ mainCurrencies ∧ normalizeCurrency c.currency ∈ mainCurrencies
  · have hmain' : normalizeCurrency (respelled tx date).currency ∈ mainCurrencies ∧
        normalizeCurrency c.currency ∈ mainCurrencies := hmain
    rw [if_pos (.inr hmain), if_pos (.inr hmain')]
    exact iff_of_true rfl (.inr hmain)
  · have hmain' : ¬(normalizeCurrency (respelled tx date).currency ∈ mainCurrencies ∧
        normalizeCurrency c.currency ∈ mainCurrencies) := hmain
    simp only [or_iff_left hmain, or_iff_left hmain']
    cases (e.pairRate tx c).isSome <;> cases (e.pairRate (respelled tx date) c).isSome <;>
      simp [hparts, hparts.symm]

theorem amount_respelled_iff (hne : normalizeCurrency tx.currency ≠ normalizeCurrency c.currency) :
    (e.components (respelled tx date) c type).amount = (e.components tx c type).amount ↔
      tx.amount = 0 ∨ e.BandsAlike tx c date := by
  have hamount (tx' : Tx) (hamount : tx'.amount = tx.amount) (hcurrency : tx'.currency = tx.currency) :
      (e.components tx' c type).amount =
        scoreAmount e.numbers |tx.amount| (e.comparedAmount tx' c) e.config.amountToleranceFx true := by
    rw [components_amount, hamount, pairTolerance, hcurrency, if_pos hne, decide_eq_true hne]
  rw [hamount (respelled tx date) rfl rfl, hamount tx rfl rfl]
  by_cases hzero : tx.amount = 0
  · rw [hzero, abs_zero, scoreAmount_zero, scoreAmount_zero]
    exact iff_of_true rfl (.inl rfl)
  · rw [or_iff_right hzero, eq_comm]
    exact scoreAmount_eq_iff (abs_ne_zero.mpr hzero)

/-- The details tell the components of the amount and of the currency. -/
theorem scorePair_respelled_iff_components (hc : c.amount ≠ 0) (hday : parseDate date = parseDate tx.date) :
    e.scorePair (respelled tx date) c type = e.scorePair tx c type ↔
      (e.components (respelled tx date) c type).amount = (e.components tx c type).amount ∧
        (e.components (respelled tx date) c type).currency = (e.components tx c type).currency := by
  obtain ⟨hdate, htext, hreference⟩ := components_respelled e c type hday
  rw [scorePair_eq hc, scorePair_eq hc, pairWeights_respelled]
  constructor
  · intro heq
    have hdetails := congrArg Prod.snd heq
    have hamount : e.numbers.round 3 _ = e.numbers.round 3 _ := congrArg ScoreDetails.amount hdetails
    have hcurrency : e.numbers.round 3 _ = e.numbers.round 3 _ := congrArg ScoreDetails.currency hdetails
    rw [round_components.1, round_components.1] at hamount
    rw [round_components.2, round_components.2] at hcurrency
    exact ⟨hamount, hcurrency⟩
  · rintro ⟨hamount, hcurrency⟩
    have hsame : e.components (respelled tx date) c type = e.components tx c type :=
      ScoreDetails.ext hamount hdate htext hreference hcurrency
    rw [hsame]

/-- **When the score does not depend on the spelling of the date.** -/
theorem scorePair_respelled_iff (e : BulkMatchingEngine) (tx : Tx) (c : Candidate) (type : DocType) (date : String)
    (day : ℕ) (hday : parseDate tx.date = some day) (hday' : parseDate date = some day) :
    e.scorePair (respelled tx date) c type = e.scorePair tx c type ↔ e.SpellingIrrelevant tx c date := by
  rw [SpellingIrrelevant]
  by_cases hc : c.amount = 0
  · rw [scorePair_of_zero hc, scorePair_of_zero hc]
    exact iff_of_true rfl (.inl hc)
  · rw [or_iff_right hc, scorePair_respelled_iff_components hc (hday'.trans hday.symm)]
    by_cases hsame : normalizeCurrency tx.currency = normalizeCurrency c.currency
    · exact iff_of_true (components_of_same hsame) (.inl hsame)
    · rw [or_iff_right hsame, amount_respelled_iff hsame, currency_respelled_iff hsame, and_comm]

/-- A rate of one half in January, of 0.94 in March. -/
def eurosOfTwoDays : FxRates :=
  Dict.ofList [("2026-01-05", Dict.ofList [("EUR", 50 / 100)]),
    ("2026-03-05", Dict.ofList [("EUR", Binary64.nearest (94 / 100))])]

/-- With a time behind its day, a date finds the same rate as the last day before it. -/
theorem scorePair_respelled_time :
    let e : BulkMatchingEngine := .withRates .binary64 eurosOfTwoDays
    let tx := movement "601" (-100) 7 "2026-03-05"
    let c := invoiceDue 3001 94 "EUR" "2026-03-05"
    e.scorePair (respelled tx "2026-03-05 10:30:00") c .invoice = e.scorePair tx c .invoice :=
  (scorePair_respelled_iff _ _ _ _ _ 739680 (by decide +kernel) (by decide +kernel)).mpr (by decide +kernel)

/-- With its day first, a date is before all days of the table, and the rate is that of the first one. -/
theorem score_depends_on_spelling : ¬∀ (e : BulkMatchingEngine) (tx : Tx) (c : Candidate) (type : DocType)
    (date : String) (day : ℕ), parseDate tx.date = some day → parseDate date = some day →
      e.scorePair (respelled tx date) c type = e.scorePair tx c type := by
  intro h
  have hsame := h (.withRates .binary64 eurosOfTwoDays) (movement "601" (-100) 7 "2026-03-05")
    (invoiceDue 3001 94 "EUR" "2026-03-05") .invoice "05.03.2026" 739680 (by decide +kernel) (by decide +kernel)
  exact absurd hsame (by decide +kernel)

end Respelled

end Pinnokio.Matching.BulkMatchingEngine
