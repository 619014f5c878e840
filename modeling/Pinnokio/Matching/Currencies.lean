import Pinnokio.Matching.IndexedPairs
import Pinnokio.Matching.Transfers

/-!
# Amounts in different currencies

The rates of a batch are quoted against one base currency, which has no rate of its own.  To compare two amounts of
different currencies, the engine divides the amount of the document, or of the second side of a transfer, by the rate of
its currency and leaves the other one as it is; an amount without a rate stays what it is.  The arithmetic here is
exact: a part of an amount that is compared with a bound is not rounded.

* `scores_alike_iff` — a document is compared in the base currency exactly when the transaction is in it and the
  document in it or in a currency with a rate;
* `transfers_alike_iff` — the same for transfers, where the first side is converted if the second has no rate;
* `amounts_alike_iff` — **when amounts are compared in one currency**.
-/

namespace Pinnokio.Matching

open Pinnokio.Text Pinnokio.Numbers

/-! ### Closeness -/

/-- Two amounts differ by at most a part of the larger one. -/
def Close (part x y : ℚ) : Prop := |x - y| ≤ part * max x y

theorem close_self {part x : ℚ} (hpart : 0 ≤ part) (hx : 0 ≤ x) : Close part x x := by
  rw [Close, sub_self, abs_zero]
  exact mul_nonneg hpart (le_max_of_le_left hx)

/-- Dividing one of two amounts keeps closeness only if the divisor is one. -/
theorem eq_one_of_close {part factor : ℚ} (hpart : 0 < part) (hone : part < 1) (hfactor : 0 < factor)
    (h : ∀ x y, 0 < x → 0 < y → Close part x y → Close part (x / factor) y) : factor = 1 := by
  by_contra hne
  have hrest : 0 < 1 - part := sub_pos.mpr hone
  have hless : 1 - part < 1 := by linarith
  rcases lt_or_gt_of_ne hne with hlt | hgt
  · -- The divided amount was the larger one and moves away.
    have hclose : Close part 1 (1 - part) := by
      rw [Close, max_eq_left hless.le, sub_sub_cancel, abs_of_pos hpart, mul_one]
    have hscaled := h 1 (1 - part) one_pos hrest hclose
    have hgrown : 1 < 1 / factor := (one_lt_div hfactor).mpr hlt
    rw [Close, max_eq_left (by linarith), abs_of_pos (by linarith)] at hscaled
    nlinarith
  · -- The divided amount was the smaller one and moves away.
    have hclose : Close part (1 - part) 1 := by
      rw [Close, max_eq_right hless.le, mul_one, abs_sub_comm, sub_sub_cancel, abs_of_pos hpart]
    have hscaled := h (1 - part) 1 hrest one_pos hclose
    have hshrunk : (1 - part) / factor < 1 - part := div_lt_self hrest hgt
    rw [Close, max_eq_right (by linarith), abs_sub_comm, abs_of_pos (by linarith)] at hscaled
    linarith

/-! ### Rates against a base -/

/-- The rates of a table are positive, and its base currency has none. -/
structure RatesAgainst (rates : FxRates) (base : String) : Prop where
  positive : ∀ day ∈ rates.entries, ∀ rate ∈ day.2.entries, 0 < rate.2
  noBase : ∀ day ∈ rates.entries, normalizeCurrency base ∉ day.2.keys

/-- The rate of a currency, under the code the engine looks it up with. -/
def rateOf (rates : FxRates) (currency date : String) : Option ℚ :=
  getFxRateForDate rates (normalizeCurrency currency) date

/-- What an amount is divided by to be in the base currency. -/
def baseRate (rates : FxRates) (base currency date : String) : Option ℚ :=
  if normalizeCurrency (normalizeCurrency currency) = normalizeCurrency base then some 1
  else rateOf rates currency date

/-- An amount in the base currency. -/
def inBase (rates : FxRates) (base currency date : String) (amount : ℚ) : Option ℚ :=
  (baseRate rates base currency date).map fun rate => |amount| / rate

/-- Two amounts can be converted to the base currency, and there they differ by at most a part of the larger one. -/
def AgreeInBase (rates : FxRates) (base date : String) (part : ℚ) (currencyA : String) (amountA : ℚ)
    (currencyB : String) (amountB : ℚ) : Prop :=
  ∃ x y, inBase rates base currencyA date amountA = some x ∧ inBase rates base currencyB date amountB = some y ∧
    Close part x y

section Rates

variable {rates : FxRates} {base currency date : String} {rate : ℚ}

theorem mem_of_rateOn {code day : String} (h : rateOn rates code day = some rate) :
    ∃ d ∈ rates.entries, (code, rate) ∈ d.2.entries := by
  obtain ⟨dayRates, hday, hrate⟩ := Option.bind_eq_some_iff.mp h
  exact ⟨(day, dayRates), Dict.mem_entries_iff.mpr hday, Dict.mem_entries_iff.mpr hrate⟩

/-- A rate that is found is the rate of some day. -/
theorem exists_day_of_rateOf (h : rateOf rates currency date = some rate) :
    ∃ day, rateOn rates (normalizeCurrency (normalizeCurrency currency)) day = some rate := by
  dsimp only [rateOf, getFxRateForDate] at h
  split at h
  · next hday => exact ⟨date, hday.trans h⟩
  · split at h
    · next hday =>
      obtain ⟨day, -, hrate⟩ := Option.bind_eq_some_iff.mp hday
      exact ⟨day, hrate.trans h⟩
    · obtain ⟨day, -, hrate⟩ := Option.bind_eq_some_iff.mp h
      exact ⟨day, hrate⟩

theorem rateOf_pos (h : RatesAgainst rates base) (hrate : rateOf rates currency date = some rate) : 0 < rate := by
  obtain ⟨day, hday⟩ := exists_day_of_rateOf hrate
  obtain ⟨d, hd, hmem⟩ := mem_of_rateOn hday
  exact h.positive d hd _ hmem

/-- The base currency has no rate. -/
theorem rateOf_base (h : RatesAgainst rates base)
    (hbase : normalizeCurrency (normalizeCurrency currency) = normalizeCurrency base) :
    rateOf rates currency date = none := by
  by_contra hsome
  obtain ⟨rate, hrate⟩ := Option.ne_none_iff_exists'.mp hsome
  obtain ⟨day, hday⟩ := exists_day_of_rateOf hrate
  obtain ⟨d, hd, hmem⟩ := mem_of_rateOn hday
  have hkey : normalizeCurrency (normalizeCurrency currency) ∈ d.2.keys := List.mem_map.mpr ⟨_, hmem, rfl⟩
  rw [hbase] at hkey
  exact h.noBase d hd hkey

theorem positiveRate_eq (h : RatesAgainst rates base) :
    positiveRate rates (normalizeCurrency currency) date = rateOf rates currency date := by
  rw [positiveRate]
  cases hrate : rateOf rates currency date with
  | none =>
      rw [rateOf] at hrate
      rw [hrate, Option.filter_none]
  | some rate =>
      have hpos := rateOf_pos h hrate
      rw [rateOf] at hrate
      rw [hrate]
      exact Option.filter_some_pos (decide_eq_true hpos)

/-- An empty table has no rates. -/
theorem rateOf_empty (hempty : rates.isEmpty = true) : rateOf rates currency date = none := by
  by_contra hsome
  obtain ⟨rate, hrate⟩ := Option.ne_none_iff_exists'.mp hsome
  obtain ⟨day, hday⟩ := exists_day_of_rateOf hrate
  obtain ⟨d, hd, -⟩ := mem_of_rateOn hday
  exact Dict.isEmpty_iff.mp hempty d.1 (List.mem_map_of_mem hd)

/-- What the engine divides an amount by. -/
def divisor (rates : FxRates) (currency date : String) : ℚ := (rateOf rates currency date).getD 1

theorem divisor_pos (h : RatesAgainst rates base) : 0 < divisor rates currency date := by
  rw [divisor]
  cases hrate : rateOf rates currency date with
  | none => exact one_pos
  | some rate => exact rateOf_pos h hrate

/-- The rate into the base currency is what the engine divides by. -/
theorem divisor_of_baseRate (h : RatesAgainst rates base) (hrate : baseRate rates base currency date = some rate) :
    divisor rates currency date = rate := by
  rw [baseRate] at hrate
  rw [divisor]
  split at hrate
  · next hbase =>
    rw [rateOf_base h hbase]
    exact Option.some.inj hrate
  · rw [hrate, Option.getD_some]

end Rates

/-! ### Agreement -/

section Agreement

variable {rates : FxRates} {base date currencyA currencyB : String} {part : ℚ}

/-- Amounts agree if the first one is as good as in the base currency, the second one can be converted, and they are
close once the second is. -/
theorem agree_of_close (h : RatesAgainst rates base) {amountA amountB factor : ℚ}
    (hA : baseRate rates base currencyA date = some factor) (hB : (baseRate rates base currencyB date).isSome)
    (hclose : Close part (|amountA| / factor) (|amountB| / divisor rates currencyB date)) :
    AgreeInBase rates base date part currencyA amountA currencyB amountB := by
  obtain ⟨rate, hrate⟩ := Option.isSome_iff_exists.mp hB
  rw [divisor_of_baseRate h hrate] at hclose
  refine ⟨_, _, ?_, ?_, hclose⟩
  · rw [inBase, hA, Option.map_some]
  · rw [inBase, hrate, Option.map_some]

/-- Amounts that agree can be converted. -/
theorem isSome_of_agree {amountA amountB : ℚ}
    (h : AgreeInBase rates base date part currencyA amountA currencyB amountB) :
    (baseRate rates base currencyA date).isSome ∧ (baseRate rates base currencyB date).isSome := by
  obtain ⟨x, y, hx, hy, -⟩ := h
  obtain ⟨rateA, hA, -⟩ := Option.map_eq_some_iff.mp hx
  obtain ⟨rateB, hB, -⟩ := Option.map_eq_some_iff.mp hy
  exact ⟨Option.isSome_iff_exists.mpr ⟨rateA, hA⟩, Option.isSome_iff_exists.mpr ⟨rateB, hB⟩⟩

/-- If amounts agree whenever they are close once the second is converted, the first is as good as in the base
currency. -/
theorem baseRate_eq_one_of_agree (h : RatesAgainst rates base) (hpart : 0 < part) (hone : part < 1)
    (hagree : ∀ x y, 0 < x → 0 < y → Close part x y → ∃ amountB, |amountB| = y * divisor rates currencyB date ∧
      AgreeInBase rates base date part currencyA x currencyB amountB) :
    baseRate rates base currencyA date = some 1 ∧ (baseRate rates base currencyB date).isSome := by
  obtain ⟨amount, -, hsample⟩ := hagree 1 1 one_pos one_pos (close_self hpart.le zero_le_one)
  obtain ⟨hA, hB⟩ := isSome_of_agree hsample
  obtain ⟨factor, hfactor⟩ := Option.isSome_iff_exists.mp hA
  have hpos : 0 < factor := divisor_of_baseRate h hfactor ▸ divisor_pos h
  have hscaled : ∀ x y, 0 < x → 0 < y → Close part x y → Close part (x / factor) y := by
    intro x y hx hy hclose
    obtain ⟨amountB, hamount, u, v, hu, hv, huv⟩ := hagree x y hx hy hclose
    obtain ⟨rate, hrate, rfl⟩ := Option.map_eq_some_iff.mp hv
    rw [inBase, hfactor, Option.map_some, abs_of_pos hx] at hu
    cases hu
    have hdivisor : 0 < divisor rates currencyB date := divisor_pos h
    rw [hamount, ← divisor_of_baseRate h hrate, mul_div_cancel_right₀ y hdivisor.ne'] at huv
    exact huv
  rw [eq_one_of_close hpart hone hpos hscaled] at hfactor
  exact ⟨hfactor, hB⟩

end Agreement

/-! ### Documents -/

namespace BulkMatchingEngine

/-- The amounts of a transaction and a document in two currencies agree in the base currency whenever the amount
component of their score is at least 0.40. -/
def ScoresAlike (rates : FxRates) (base txCurrency candCurrency date : String) : Prop :=
  ∀ (tx : Tx) (c : Candidate) (type : DocType), tx.currency = txCurrency → c.currency = candCurrency →
    tx.date = date → 40 / 100 ≤ ((BulkMatchingEngine.mk {} rates .exact).scorePair tx c type).2.amount →
    AgreeInBase rates base date (20 / 100) txCurrency tx.amount candCurrency c.amount

/-- The transaction is in the base currency, or at par with it, and the document can be converted. -/
def ScoresConvertible (rates : FxRates) (base txCurrency candCurrency date : String) : Prop :=
  baseRate rates base txCurrency date = some 1 ∧ (baseRate rates base candCurrency date).isSome

section Scores

variable {rates : FxRates} {base txCurrency candCurrency date : String}

theorem scoreAmount_ge_iff {x y : ℚ} (hx : 0 < x) (hy : 0 < y) :
    40 / 100 ≤ roundTo 3 (scoreAmount .exact x y (10 / 100) true) ↔ Close (20 / 100) x y := by
  have hmax : 0 < max |x| |y| := lt_max_of_lt_left (abs_pos.mpr hx.ne')
  have hclose : Close (20 / 100) x y ↔ |x - y| / max |x| |y| ≤ 20 / 100 := by
    rw [div_le_iff₀ hmax, Close, abs_of_pos hx, abs_of_pos hy]
  rw [hclose]
  constructor
  · intro hscore
    by_contra hfar
    have htolerance : (10 / 100 : ℚ) ≤ Rounding.exact.lit (20 / 100) := by
      rw [Rounding.exact_lit]
      norm_num
    rw [scoreAmount_eq_zero htolerance (not_le.mp hfar)] at hscore
    exact absurd hscore (by decide +kernel)
  · intro hnear
    have hband : Rounding.exact.div |Rounding.exact.sub x y| (max |x| |y|) ≤ Rounding.exact.lit (20 / 100) := hnear
    rw [scoreAmount, if_neg (not_or.mpr ⟨hx.ne', hy.ne'⟩)]
    simp only [reduceIte, and_true, if_pos hband]
    split_ifs <;> decide +kernel

/-- What the amount component compares. -/
theorem amount_ge_iff (h : RatesAgainst rates base) {tx : Tx} {c : Candidate}
    (hcurrency : normalizeCurrency tx.currency ≠ normalizeCurrency c.currency) (type : DocType) :
    40 / 100 ≤ ((BulkMatchingEngine.mk {} rates .exact).scorePair tx c type).2.amount ↔
      tx.amount ≠ 0 ∧ c.amount ≠ 0 ∧
        Close (20 / 100) |tx.amount| (|c.amount| / divisor rates c.currency tx.date) := by
  have hrate : ((BulkMatchingEngine.mk {} rates .exact).pairRate tx c).elim |c.amount|
      (fun rate => Rounding.exact.div |c.amount| rate) = |c.amount| / divisor rates c.currency tx.date := by
    rw [pairRate, divisor, positiveRate_eq h]
    by_cases hempty : rates.isEmpty = true
    · rw [if_neg (fun hboth => hboth.2 hempty), rateOf_empty hempty, Option.getD_none, div_one, Option.elim_none]
    · rw [if_pos ⟨hcurrency, hempty⟩]
      cases rateOf rates c.currency tx.date with
      | none => rw [Option.getD_none, div_one, Option.elim_none]
      | some rate => rfl
  rw [scorePair_amount, pairTolerance, if_pos hcurrency, decide_eq_true hcurrency]
  show 40 / 100 ≤ (if |c.amount| = 0 then 0 else roundTo 3 (scoreAmount .exact |tx.amount|
    (((BulkMatchingEngine.mk {} rates .exact).pairRate tx c).elim |c.amount|
      fun rate => Rounding.exact.div |c.amount| rate) (10 / 100) true)) ↔ _
  rw [hrate]
  by_cases hc : c.amount = 0
  · rw [if_pos (abs_eq_zero.mpr hc)]
    exact iff_of_false (by norm_num) fun hall => hall.2.1 hc
  · rw [if_neg (abs_ne_zero.mpr hc)]
    by_cases htx : tx.amount = 0
    · rw [abs_eq_zero.mpr htx, scoreAmount_zero]
      exact iff_of_false (by decide +kernel) fun hall => hall.1 htx
    · rw [scoreAmount_ge_iff (abs_pos.mpr htx) (div_pos (abs_pos.mpr hc) (divisor_pos h))]
      exact ⟨fun hclose => ⟨htx, hc, hclose⟩, fun hall => hall.2.2⟩

/-- **Documents are compared in the base currency** exactly when the transaction is in it and the document can be
converted. -/
theorem scores_alike_iff (h : RatesAgainst rates base)
    (hcurrency : normalizeCurrency txCurrency ≠ normalizeCurrency candCurrency) :
    ScoresAlike rates base txCurrency candCurrency date ↔
      ScoresConvertible rates base txCurrency candCurrency date := by
  constructor
  · intro halike
    have hpart : (0 : ℚ) < 20 / 100 := by norm_num
    have hone : (20 / 100 : ℚ) < 1 := by norm_num
    refine baseRate_eq_one_of_agree h hpart hone fun x y hx hy hclose => ?_
    have hdivisor : 0 < divisor rates candCurrency date := divisor_pos h
    have hamount : |y * divisor rates candCurrency date| = y * divisor rates candCurrency date :=
      abs_of_pos (mul_pos hy hdivisor)
    refine ⟨y * divisor rates candCurrency date, hamount, ?_⟩
    obtain ⟨tx, rfl, rfl, rfl⟩ : ∃ tx : Tx, tx.currency = txCurrency ∧ tx.date = date ∧ tx.amount = x :=
      ⟨{ movement "1" x 10 date with currency := txCurrency }, rfl, rfl, rfl⟩
    obtain ⟨c, rfl, hc⟩ : ∃ c : Candidate, c.currency = candCurrency ∧
        c.amount = y * divisor rates candCurrency tx.date :=
      ⟨invoiceDue 1 (y * divisor rates candCurrency tx.date) candCurrency tx.date, rfl, rfl⟩
    rw [← hc] at hamount ⊢
    refine halike tx c .invoice rfl rfl rfl ((amount_ge_iff h hcurrency .invoice).mpr ⟨hx.ne', ?_, ?_⟩)
    · rw [hc]
      exact (mul_pos hy hdivisor).ne'
    · rw [hamount, hc, abs_of_pos hx, mul_div_cancel_right₀ y hdivisor.ne']
      exact hclose
  · rintro ⟨hbase, hconvertible⟩ tx c type rfl rfl rfl hscore
    obtain ⟨-, -, hclose⟩ := (amount_ge_iff h hcurrency type).mp hscore
    refine agree_of_close h hbase hconvertible ?_
    rw [div_one]
    exact hclose

end Scores

/-! ### Transfers -/

/-- The amounts of two accepted sides of a transfer in two currencies agree in the base currency at the date of the
first. -/
def TransfersAlike (rates : FxRates) (base currencyA currencyB date : String) : Prop :=
  ∀ a b : Tx, a.currency = currencyA → b.currency = currencyB → a.date = date →
    ((BulkMatchingEngine.mk {} rates .exact).transferScore a b).isSome →
    AgreeInBase rates base date (5 / 100) currencyA a.amount currencyB b.amount

/-- Two currencies without rates are not compared if there are rates at all. -/
def Skipped (rates : FxRates) (currencyA currencyB date : String) : Prop :=
  rates.isEmpty = false ∧ rateOf rates currencyA date = none ∧ rateOf rates currencyB date = none

/-- No pair is accepted, for lack of a date or of rates, or both sides can be converted, and the first is in the base
currency, or at par with it, if the second has a rate. -/
def TransfersConvertible (rates : FxRates) (base currencyA currencyB date : String) : Prop :=
  parseDate date = none ∨ Skipped rates currencyA currencyB date ∨
    (baseRate rates base currencyA date).isSome ∧ (baseRate rates base currencyB date).isSome ∧
      ((rateOf rates currencyB date).isSome → baseRate rates base currencyA date = some 1)

/-- What the first side is divided by. -/
def firstDivisor (rates : FxRates) (currencyA currencyB date : String) : ℚ :=
  if (rateOf rates currencyB date).isSome then 1 else divisor rates currencyA date

section Transfers

variable {rates : FxRates} {base currencyA currencyB date : String} {a b : Tx}

theorem firstDivisor_pos (h : RatesAgainst rates base) : 0 < firstDivisor rates currencyA currencyB date := by
  rw [firstDivisor]
  split
  · exact one_pos
  · exact divisor_pos h

/-- What the amount gate compares. -/
theorem transferAmounts_eq (h : RatesAgainst rates base)
    (hcurrency : normalizeCurrency a.currency ≠ normalizeCurrency b.currency) {amounts : ℚ × ℚ} :
    (BulkMatchingEngine.mk {} rates .exact).transferAmounts a b = some amounts ↔
      ¬Skipped rates a.currency b.currency a.date ∧
        amounts = (|a.amount| / firstDivisor rates a.currency b.currency a.date,
          |b.amount| / divisor rates b.currency a.date) := by
  dsimp only [transferAmounts, Skipped, firstDivisor, divisor]
  rw [positiveRate_eq h, positiveRate_eq h]
  cases hempty : rates.isEmpty with
  | true =>
      rw [if_neg (fun hboth => hboth.2 rfl), rateOf_empty hempty, rateOf_empty hempty]
      simp [eq_comm]
  | false =>
      rw [if_pos ⟨hcurrency, Bool.false_ne_true⟩, numbers_exact]
      cases rateOf rates b.currency a.date with
      | some rate => simp [eq_comm]
      | none => cases rateOf rates a.currency a.date with
        | some rate => simp [eq_comm]
        | none => simp

theorem textSimilarity_le_one (python : Interpreter) (s t : String) : textSimilarity python s t ≤ 1 := by
  rw [textSimilarity]
  split
  · exact zero_le_one
  · dsimp only
    split
    · exact le_refl 1
    · rw [← python.numbers.one]
      exact python.numbers.mono (SequenceMatcher.ratio_le_one _ _)

/-- The blend of two currencies, in exact arithmetic. -/
theorem blend_exact (hcurrency : normalizeCurrency a.currency ≠ normalizeCurrency b.currency) {dayDiff : ℕ} {diff : ℚ} :
    (BulkMatchingEngine.mk {} rates .exact).blend a b dayDiff diff =
      40 / 100 * ((1 - diff) * (90 / 100)) + 30 / 100 * transferDateScore .exact dayDiff +
        30 / 100 * textSimilarity .exact (buildTxText a) (buildTxText b) := by
  rw [blend, if_pos hcurrency]
  rfl

/-- What is known of an accepted pair of two currencies. -/
theorem close_of_accepted (h : RatesAgainst rates base)
    (hcurrency : normalizeCurrency a.currency ≠ normalizeCurrency b.currency)
    (haccepted : ((BulkMatchingEngine.mk {} rates .exact).transferScore a b).isSome) :
    parseDate a.date ≠ none ∧ ¬Skipped rates a.currency b.currency a.date ∧
      Close (5 / 100) (|a.amount| / firstDivisor rates a.currency b.currency a.date)
        (|b.amount| / divisor rates b.currency a.date) := by
  obtain ⟨score, hscore⟩ := Option.isSome_iff_exists.mp haccepted
  obtain ⟨hcomposite, hthreshold⟩ := transferScore_eq_some_iff.mp hscore
  obtain ⟨hgate, dayDiff, x, y, hdays, hamounts, hdiff, hblend⟩ := compositeScore_eq_some_iff.mp hcomposite
  rw [numbers_exact] at hdiff hblend hthreshold
  obtain ⟨hskip, heq⟩ := (transferAmounts_eq h hcurrency).mp hamounts
  obtain ⟨hx, hy⟩ := Prod.mk.inj heq
  have hpos : 0 < x := hx ▸ div_pos (abs_pos.mpr (not_or.mp hgate).1) (firstDivisor_pos h)
  rw [← hx, ← hy]
  have hmax : 0 < max x y := lt_max_of_lt_left hpos
  have htolerance : (BulkMatchingEngine.mk {} rates .exact).transferTolerance a b = 5 / 100 := if_pos hcurrency
  refine ⟨fun hdate => ?_, hskip, ?_⟩
  · -- Without a date, full marks for the text and for the amount are not enough.
    have hfar : dayDiff = 99 := by
      rw [transferDays_eq, hdate] at hdays
      exact (Option.some.inj hdays).symm
    have hpositive : 0 ≤ transferDiff .exact x y := div_nonneg (abs_nonneg _) hmax.le
    have htext := textSimilarity_le_one .exact (buildTxText a) (buildTxText b)
    have hlast : transferDateScore .exact 99 = 10 / 100 := by decide +kernel
    rw [blend_exact hcurrency, hfar, hlast] at hblend
    rw [Rounding.exact_lit] at hthreshold
    linarith
  · rw [htolerance] at hdiff
    exact (div_le_iff₀ hmax).mp hdiff

/-- Close amounts on the same day with the same text are accepted. -/
theorem isSome_of_close (h : RatesAgainst rates base)
    (hcurrency : normalizeCurrency a.currency ≠ normalizeCurrency b.currency) (hdate : parseDate a.date ≠ none)
    (hsame : b.date = a.date) (htext : textSimilarity .exact (buildTxText a) (buildTxText b) = 1)
    (hgate : ¬(a.amount = 0 ∨ b.amount = 0 ∨ 0 ≤ a.amount * b.amount ∨ a.accountId = b.accountId))
    (hskip : ¬Skipped rates a.currency b.currency a.date)
    (hclose : Close (5 / 100) (|a.amount| / firstDivisor rates a.currency b.currency a.date)
      (|b.amount| / divisor rates b.currency a.date)) :
    ((BulkMatchingEngine.mk {} rates .exact).transferScore a b).isSome := by
  have hdays : (BulkMatchingEngine.mk {} rates .exact).transferDays a b = some 0 := by
    obtain ⟨day, hday⟩ := Option.ne_none_iff_exists'.mp hdate
    rw [transferDays_eq, hsame, hday]
    simp
  have hamounts := (transferAmounts_eq (a := a) (b := b) h hcurrency).mpr ⟨hskip, rfl⟩
  have hx : 0 < |a.amount| / firstDivisor rates a.currency b.currency a.date :=
    div_pos (abs_pos.mpr (not_or.mp hgate).1) (firstDivisor_pos h)
  generalize |a.amount| / firstDivisor rates a.currency b.currency a.date = x at hamounts hx hclose
  generalize |b.amount| / divisor rates b.currency a.date = y at hamounts hclose
  have hdiff : transferDiff .exact x y ≤ 5 / 100 := (div_le_iff₀ (lt_max_of_lt_left hx)).mpr hclose
  have hcomposite : (BulkMatchingEngine.mk {} rates .exact).compositeScore a b =
      some ((BulkMatchingEngine.mk {} rates .exact).blend a b 0 (transferDiff .exact x y)) := by
    refine compositeScore_eq_some_iff.mpr ⟨hgate, 0, x, y, hdays, hamounts, ?_, rfl⟩
    rw [transferTolerance, if_pos hcurrency]
    exact hdiff
  refine Option.isSome_iff_exists.mpr ⟨_, transferScore_eq_some_iff.mpr ⟨hcomposite, ?_⟩⟩
  have hday : transferDateScore .exact 0 = 1 := rfl
  rw [blend_exact hcurrency, htext, hday, numbers_exact, Rounding.exact_lit]
  linarith

/-- There is such a transfer of any close amounts. -/
theorem exists_transfer (h : RatesAgainst rates base)
    (hcurrency : normalizeCurrency currencyA ≠ normalizeCurrency currencyB) (hdate : parseDate date ≠ none)
    (hskip : ¬Skipped rates currencyA currencyB date) {x y : ℚ} (hx : 0 < x) (hy : 0 < y)
    (hclose : Close (5 / 100) x y) :
    ∃ a b : Tx, a.currency = currencyA ∧ b.currency = currencyB ∧ a.date = date ∧
      a.amount = x * firstDivisor rates currencyA currencyB date ∧
      |b.amount| = y * divisor rates currencyB date ∧
      ((BulkMatchingEngine.mk {} rates .exact).transferScore a b).isSome := by
  have hfirst : 0 < firstDivisor rates currencyA currencyB date := firstDivisor_pos h
  have hsecond : 0 < divisor rates currencyB date := divisor_pos h
  have hu : 0 < x * firstDivisor rates currencyA currencyB date := mul_pos hx hfirst
  have hv : 0 < y * divisor rates currencyB date := mul_pos hy hsecond
  obtain ⟨a, rfl, rfl, haccount, htext, hamount⟩ : ∃ a : Tx, a.currency = currencyA ∧ a.date = date ∧
      a.accountId = some (.int 10) ∧ buildTxText a = "Acme" ∧
      a.amount = x * firstDivisor rates currencyA currencyB date :=
    ⟨{ movement "1" (x * firstDivisor rates currencyA currencyB date) 10 date with currency := currencyA },
      rfl, rfl, rfl, by simp only [buildTxText, movement]; decide +kernel, rfl⟩
  obtain ⟨b, rfl, hsame, haccount', htext', hamount'⟩ : ∃ b : Tx, b.currency = currencyB ∧ b.date = a.date ∧
      b.accountId = some (.int 20) ∧ buildTxText b = "Acme" ∧ b.amount = -(y * divisor rates currencyB a.date) :=
    ⟨{ movement "2" (-(y * divisor rates currencyB a.date)) 20 a.date with currency := currencyB },
      rfl, rfl, rfl, by simp only [buildTxText, movement]; decide +kernel, rfl⟩
  have habs : |b.amount| = y * divisor rates b.currency a.date := by rw [hamount', abs_neg, abs_of_pos hv]
  refine ⟨a, b, rfl, rfl, rfl, hamount, habs, isSome_of_close h hcurrency hdate hsame ?_ ?_ hskip ?_⟩
  · rw [htext, htext']
    decide +kernel
  · rw [haccount, haccount', hamount, hamount']
    simp only [not_or, not_le]
    exact ⟨hu.ne', (neg_neg_of_pos hv).ne, mul_neg_of_pos_of_neg hu (neg_neg_of_pos hv), by decide⟩
  · rw [habs, hamount, abs_of_pos hu, mul_div_cancel_right₀ x hfirst.ne', mul_div_cancel_right₀ y hsecond.ne']
    exact hclose

/-- **The sides of a transfer are compared in the base currency** exactly when no pair is accepted, or both sides can be
converted and the first one is in the base currency if the second has a rate. -/
theorem transfers_alike_iff (h : RatesAgainst rates base)
    (hcurrency : normalizeCurrency currencyA ≠ normalizeCurrency currencyB) :
    TransfersAlike rates base currencyA currencyB date ↔ TransfersConvertible rates base currencyA currencyB date := by
  have hpart : (0 : ℚ) < 5 / 100 := by norm_num
  have hone : (5 / 100 : ℚ) < 1 := by norm_num
  constructor
  · intro halike
    by_cases hdate : parseDate date = none
    · exact .inl hdate
    · by_cases hskip : Skipped rates currencyA currencyB date
      · exact .inr (.inl hskip)
      · have hsample := exists_transfer h hcurrency hdate hskip one_pos one_pos (close_self hpart.le zero_le_one)
        obtain ⟨a, b, ha, hb, hday, -, -, haccepted⟩ := hsample
        obtain ⟨hA, hB⟩ := isSome_of_agree (halike a b ha hb hday haccepted)
        refine .inr (.inr ⟨hA, hB, fun hrate => ?_⟩)
        -- The first side is compared as it is.
        have hfirst : firstDivisor rates currencyA currencyB date = 1 := if_pos hrate
        suffices hboth : baseRate rates base currencyA date = some 1 ∧
            (baseRate rates base currencyB date).isSome from hboth.1
        refine baseRate_eq_one_of_agree h hpart hone fun x y hx hy hclose => ?_
        obtain ⟨a, b, ha, hb, hday, hamount, hamount', haccepted⟩ :=
          exists_transfer h hcurrency hdate hskip hx hy hclose
        rw [hfirst, mul_one] at hamount
        exact ⟨b.amount, hamount', hamount ▸ halike a b ha hb hday haccepted⟩
  · rintro hconvertible a b rfl rfl rfl haccepted
    obtain ⟨hdate, hskip, hclose⟩ := close_of_accepted h hcurrency haccepted
    rcases hconvertible with hnone | hskipped | ⟨hA, hB, hpar⟩
    · exact absurd hnone hdate
    · exact absurd hskipped hskip
    · obtain ⟨factor, hfactor⟩ := Option.isSome_iff_exists.mp hA
      refine agree_of_close h hfactor hB ?_
      have hfirst : firstDivisor rates a.currency b.currency a.date = factor := by
        rw [firstDivisor]
        split
        · next hrate =>
          rw [hpar hrate] at hfactor
          exact Option.some.inj hfactor
        · exact divisor_of_baseRate h hfactor
      rw [← hfirst]
      exact hclose

end Transfers

/-- **When amounts are compared in one currency.** -/
theorem amounts_alike_iff (rates : FxRates) (base currencyA currencyB date : String) (h : RatesAgainst rates base)
    (hcurrency : normalizeCurrency currencyA ≠ normalizeCurrency currencyB) :
    (ScoresAlike rates base currencyA currencyB date ↔ ScoresConvertible rates base currencyA currencyB date) ∧
      (TransfersAlike rates base currencyA currencyB date ↔
        TransfersConvertible rates base currencyA currencyB date) :=
  ⟨scores_alike_iff h hcurrency, transfers_alike_iff h hcurrency⟩

/-- Rates against the franc. -/
def francRates : FxRates :=
  Dict.ofList [("2026-01-15", Dict.ofList [("EUR", 94 / 100), ("JPY", 160), ("USD", 108 / 100)])]

/-- A payment in francs and an invoice or an inflow in euros are compared in francs. -/
theorem franc_and_euro_alike :
    ScoresAlike francRates "CHF" "CHF" "EUR" "2026-01-15" ∧
      TransfersAlike francRates "CHF" "CHF" "EUR" "2026-01-15" := by
  have hrates : RatesAgainst francRates "CHF" := ⟨by decide +kernel, by decide +kernel⟩
  have hcurrency : normalizeCurrency "CHF" ≠ normalizeCurrency "EUR" := by decide +kernel
  have hfranc : baseRate francRates "CHF" "CHF" "2026-01-15" = some 1 := by decide +kernel
  have heuro : (baseRate francRates "CHF" "EUR" "2026-01-15").isSome = true := by decide +kernel
  obtain ⟨hscores, htransfers⟩ := amounts_alike_iff francRates "CHF" "CHF" "EUR" "2026-01-15" hrates hcurrency
  refine ⟨hscores.mpr ⟨hfranc, heuro⟩, htransfers.mpr (.inr (.inr ⟨?_, heuro, fun _ => hfranc⟩))⟩
  rw [hfranc]
  rfl

/-- **Yen are compared as if they were francs**: 100 yen pay an invoice of 108 dollars, and are the other side of a
transfer of 108 dollars. -/
theorem yen_taken_for_francs :
    let e : BulkMatchingEngine := ⟨{}, francRates, .exact⟩
    let tx : Tx := { movement "1" (-100) 10 "2026-01-15" with currency := "JPY" }
    let other : Tx := { movement "2" 108 20 "2026-01-15" with currency := "USD" }
    let invoice := invoiceDue 3001 108 "USD" "2026-01-15"
    RatesAgainst francRates "CHF" ∧ normalizeCurrency "JPY" ≠ normalizeCurrency "USD" ∧
      40 / 100 ≤ (e.scorePair tx invoice .invoice).2.amount ∧ (e.transferScore tx other).isSome ∧
      ¬AgreeInBase francRates "CHF" "2026-01-15" (20 / 100) "JPY" tx.amount "USD" invoice.amount ∧
      ¬AgreeInBase francRates "CHF" "2026-01-15" (5 / 100) "JPY" tx.amount "USD" other.amount := by
  intro e tx other invoice
  have hyen : inBase francRates "CHF" "JPY" "2026-01-15" (-100) = some (100 / 160) := by decide +kernel
  have hdollars : inBase francRates "CHF" "USD" "2026-01-15" 108 = some 100 := by decide +kernel
  have hdisagree : ∀ part : ℚ, part < 1 / 2 →
      ¬AgreeInBase francRates "CHF" "2026-01-15" part "JPY" (-100) "USD" 108 := by
    rintro part hpart ⟨x, y, hx, hy, hclose⟩
    rw [hyen] at hx
    rw [hdollars] at hy
    cases hx
    cases hy
    rw [Close, max_eq_right (by norm_num), abs_sub_comm, abs_of_pos (by norm_num)] at hclose
    linarith
  refine ⟨⟨by decide +kernel, by decide +kernel⟩, by decide +kernel, by decide +kernel, by decide +kernel, ?_, ?_⟩
  · exact hdisagree (20 / 100) (by norm_num)
  · exact hdisagree (5 / 100) (by norm_num)

end BulkMatchingEngine

end Pinnokio.Matching
