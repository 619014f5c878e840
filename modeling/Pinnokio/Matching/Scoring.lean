import Mathlib.Data.List.Sort
import Pinnokio.Lib.Binary64
import Pinnokio.Lib.Json
import Pinnokio.Lib.SequenceMatcher

/-!
# Scoring a bank transaction against a document

`BulkMatchingSuggestionEngine` compares a transaction with an invoice or an expense on five components: amount,
date, text, reference and currency.  The score is their weighted sum, rounded to three decimals; amounts of
different currencies are compared after conversion with a table of rates.

The code computes with floats.  Here amounts, rates and scores are the rationals that the floats stand for, and every
operation rounds as the `Interpreter` of the engine does: in double precision, or not at all where exact arithmetic is
meant.
-/

namespace Pinnokio.Matching

open Pinnokio.Text Pinnokio.Numbers

/-! ### The interpreter -/

/-- What the engine takes from its interpreter: floats and `str.lower`, which leaves a blank text blank. -/
structure Interpreter where
  numbers : Rounding
  lower : String → String
  lower_blank : ∀ s, nonBlank s = false → nonBlank (lower s) = false

/-- Exact arithmetic. -/
def Interpreter.exact : Interpreter := ⟨Rounding.exact, Text.lower, fun s h => (nonBlank_lower s).trans h⟩

/-- Double precision. -/
def Interpreter.binary64 : Interpreter := ⟨Binary64.binary64, Text.lower, fun s h => (nonBlank_lower s).trans h⟩

/-! ### Configuration -/

/-- The weights of the components. -/
structure Weights where
  amount : ℚ
  date : ℚ
  text : ℚ
  reference : ℚ
  currency : ℚ
  deriving DecidableEq

/-- Weights, as a machine reads them. -/
def Weights.read (A : Rounding) (w : Weights) : Weights :=
  ⟨A.lit w.amount, A.lit w.date, A.lit w.text, A.lit w.reference, A.lit w.currency⟩

/-- `BulkMatchingConfig`. -/
structure BulkMatchingConfig where
  invoiceWeights : Weights := ⟨25 / 100, 25 / 100, 25 / 100, 15 / 100, 10 / 100⟩
  expenseWeights : Weights := ⟨30 / 100, 30 / 100, 25 / 100, 0, 15 / 100⟩
  minDisplayThreshold : ℚ := 35 / 100
  highConfidence : ℚ := 85 / 100
  mediumConfidence : ℚ := 50 / 100
  maxSuggestions : ℕ := 3
  amountToleranceNative : ℚ := 5 / 100
  amountToleranceFx : ℚ := 10 / 100
  bucketPct : ℚ := 20 / 100
  transferDateToleranceDays : ℕ := 3
  transferAmountTolerance : ℚ := 2 / 100

/-- A configuration, as a machine reads its literals. -/
def BulkMatchingConfig.read (A : Rounding) (config : BulkMatchingConfig) : BulkMatchingConfig :=
  { config with
    invoiceWeights := config.invoiceWeights.read A
    expenseWeights := config.expenseWeights.read A
    minDisplayThreshold := A.lit config.minDisplayThreshold
    highConfidence := A.lit config.highConfidence
    mediumConfidence := A.lit config.mediumConfidence
    amountToleranceNative := A.lit config.amountToleranceNative
    amountToleranceFx := A.lit config.amountToleranceFx
    bucketPct := A.lit config.bucketPct
    transferAmountTolerance := A.lit config.transferAmountTolerance }

/-- The kind of a document, as it is sent; only three kinds have a meaning of their own. -/
inductive DocType where
  | invoice
  | arInvoice
  | expense
  | other (name : String)
  deriving DecidableEq

/-- The text of a kind. -/
def DocType.text : DocType → String
  | .invoice => "invoice"
  | .arInvoice => "ar_invoice"
  | .expense => "expense"
  | .other name => name

/-! ### Documents and suggestions -/

/-- A normalized invoice or expense.  An empty text stands for a missing value. -/
structure Candidate where
  amount : ℚ
  currency : String
  invoiceDate : String
  expenseDate : String
  date : String
  partnerName : String
  ref : String
  name : String
  paymentReference : String
  description : String
  label : String
  employeeName : String
  displayName : String
  displayRef : String
  displayAmount : ℚ
  displayDate : String
  id : Scalar
  jobId : Scalar
  fileId : Scalar

/-- The components of a score. -/
structure ScoreDetails where
  amount : ℚ
  date : ℚ
  text : ℚ
  reference : ℚ
  currency : ℚ
  deriving DecidableEq

/-- The zone of a score. -/
inductive Confidence where
  | high
  | medium
  | low
  deriving DecidableEq

/-- An entry of `top_matches`. -/
structure Suggestion where
  type : DocType
  id : String
  partnerName : String
  amount : ℚ
  currency : String
  date : String
  score : ℚ
  confidence : Confidence
  scoreDetails : ScoreDetails
  fxRate : Option ℚ
  fxConvertedAmount : Option ℚ
  internalId : Scalar
  jobId : Scalar
  fileId : Scalar
  deriving DecidableEq

/-- The counterpart of a transfer between two accounts. -/
structure TransferMatch where
  counterpartTxId : String
  counterpartJournal : String
  counterpartAmount : ℚ
  counterpartCurrency : String
  counterpartDate : String
  counterpartDescription : String
  isFx : Bool
  score : ℚ
  deriving DecidableEq

/-- `match_suggestions`. -/
structure MatchSuggestions where
  topMatches : List Suggestion
  transferMatch : Option TransferMatch
  scoredAt : Option String
  deriving DecidableEq

/-- A bank transaction; `id` is the text of its id. -/
structure Tx where
  id : String
  amount : ℚ
  currency : String
  date : String
  reference : String
  paymentRef : String
  partnerName : String
  description : String
  accountId : Option Scalar
  journalId : Option Scalar
  accountName : Option String
  journalName : Option String
  matchSuggestions : Option MatchSuggestions
  deriving DecidableEq

/-! ### Rates -/

/-- Rates by date and currency. -/
abbrev FxRates := Dict String (Dict String ℚ)

/-- `CURRENCY_ALIASES`. -/
def currencyAliases : Dict String String :=
  Dict.ofList [("DH", "MAD"), ("€", "EUR"), ("$", "USD"), ("£", "GBP"), ("¥", "JPY"), ("Fr.", "CHF"),
    ("fr.", "CHF"), ("SFr.", "CHF"), ("Fr", "CHF")]

/-- `normalize_currency`. -/
def normalizeCurrency (code : String) : String := strip (upper ((currencyAliases.get? code).getD code))

/-- The rate of a day. -/
def rateOn (rates : FxRates) (target day : String) : Option ℚ :=
  (rates.get? day).bind fun dayRates => dayRates.get? target

/-- `get_fx_rate_for_date`: the rate of the day, of the last day before, or of the first day after. -/
def getFxRateForDate (rates : FxRates) (targetCurrency date : String) : Option ℚ :=
  let target := normalizeCurrency targetCurrency
  let days := rates.keys.insertionSort (· ≤ ·)
  match rateOn rates target date with
  | some rate => some rate
  | none =>
      match ((days.filter fun d => d ≤ date).getLast?).bind (rateOn rates target) with
      | some rate => some rate
      | none => ((days.filter fun d => date < d).head?).bind (rateOn rates target)

/-- A usable rate: `if rate and rate > 0`. -/
def positiveRate (rates : FxRates) (currency date : String) : Option ℚ :=
  (getFxRateForDate rates currency date).filter fun rate => 0 < rate

/-! ### Components -/

/-- `_score_amount`. -/
def scoreAmount (A : Rounding) (expected actual tolerance : ℚ) (isFx : Bool) : ℚ :=
  if expected = 0 ∨ actual = 0 then 0
  else
    let diffRatio := A.div |A.sub expected actual| (max |expected| |actual|)
    let fxTolerance := if isFx then A.lit (10 / 100) else tolerance
    if diffRatio ≤ A.lit (2 / 100) then A.lit (95 / 100)
    else if diffRatio ≤ tolerance then A.lit (85 / 100)
    else if diffRatio ≤ fxTolerance then if isFx then A.lit (70 / 100) else A.lit (60 / 100)
    else if diffRatio ≤ A.lit (15 / 100) ∧ isFx then A.lit (55 / 100)
    else if diffRatio ≤ A.lit (20 / 100) then A.lit (40 / 100)
    else 0

/-- `_score_date`, on ordinals. -/
def scoreDate (A : Rounding) (date1 date2 : Option ℕ) (isExpense : Bool) : ℚ :=
  match date1, date2 with
  | some d1, some d2 =>
      let deltaDays := ((d1 : ℤ) - d2).natAbs
      if isExpense then
        if deltaDays ≤ 1 then 1
        else if deltaDays ≤ 3 then A.lit (90 / 100)
        else if deltaDays ≤ 7 then A.lit (75 / 100)
        else 0
      else if deltaDays = 0 then 1
      else if deltaDays ≤ 3 then A.lit (85 / 100)
      else if deltaDays ≤ 7 then A.lit (70 / 100)
      else if deltaDays ≤ 30 then A.lit (50 / 100)
      else A.lit (25 / 100)
  | _, _ => A.lit (25 / 100)

/-- `_text_similarity`. -/
def textSimilarity (python : Interpreter) (text1 text2 : String) : ℚ :=
  if text1 = "" ∨ text2 = "" then 0
  else
    let t1 := strip (python.lower text1)
    let t2 := strip (python.lower text2)
    if containedIn t1 t2 ∨ containedIn t2 t1 then 1
    else python.numbers.rnd (SequenceMatcher.ratio t1.toList t2.toList)

/-- `_build_tx_text`. -/
def buildTxText (tx : Tx) : String :=
  " ".intercalate ([tx.reference, tx.paymentRef, tx.partnerName, tx.description].filter fun p => p ≠ "")

/-- `_parse_date`. -/
def parseDate (date : String) : Option ℕ :=
  let s := String.ofList ((strip date).toList.take 10)
  match isoDate? s with
  | some d => some d
  | none =>
      match dayFirstDate? '.' s with
      | some d => some d
      | none => dayFirstDate? '/' s

/-- The currencies that are close to each other. -/
def mainCurrencies : List String := ["CHF", "EUR", "USD", "GBP"]

/-! ### The score -/

/-- The engine: its configuration and its rates, and the interpreter that runs it. -/
structure BulkMatchingEngine where
  config : BulkMatchingConfig
  fxRates : FxRates
  python : Interpreter

namespace BulkMatchingEngine

/-- The engine with the default configuration. -/
def withRates (python : Interpreter) (fxRates : FxRates) : BulkMatchingEngine :=
  ⟨BulkMatchingConfig.read python.numbers {}, fxRates, python⟩

/-- The arithmetic of an engine. -/
def numbers (e : BulkMatchingEngine) : Rounding := e.python.numbers

@[simp] theorem numbers_exact (config : BulkMatchingConfig) (fxRates : FxRates) :
    (BulkMatchingEngine.mk config fxRates .exact).numbers = .exact := rfl

/-- The fields of a candidate that a pair is scored on. -/
def candidateFields (candidate : Candidate) (candidateType : DocType) : Option ℕ × String × String :=
  if candidateType = .invoice then
    (parseDate (orElse candidate.invoiceDate candidate.date), candidate.partnerName,
      orElse (orElse candidate.ref candidate.paymentReference) candidate.name)
  else
    (parseDate (orElse candidate.expenseDate candidate.date),
      orElse candidate.description candidate.label, "")

/-- The weights, with the part of the amount reduced for a conversion. -/
def adjustedWeights (A : Rounding) (w : Weights) (isFx : Bool) : Weights :=
  if isFx then
    let reduction := A.mul w.amount (A.lit (15 / 100))
    { w with
      amount := A.sub w.amount reduction
      date := A.add w.date (A.div reduction 2)
      text := A.add w.text (A.div reduction 2) }
  else w

/-- `_score_pair`. -/
def scorePair (e : BulkMatchingEngine) (tx : Tx) (candidate : Candidate) (candidateType : DocType) :
    ℚ × ScoreDetails :=
  let A := e.numbers
  let weights := if candidateType = .invoice then e.config.invoiceWeights else e.config.expenseWeights
  let txAmount := |tx.amount|
  let txCurrency := normalizeCurrency tx.currency
  let candAmount := |candidate.amount|
  let candCurrency := normalizeCurrency candidate.currency
  let (candDate, candText, candRef) := candidateFields candidate candidateType
  if candAmount = 0 then (0, ⟨0, 0, 0, 0, 0⟩)
  else
    let isFx := decide (txCurrency ≠ candCurrency)
    let rate := if isFx ∧ ¬e.fxRates.isEmpty then positiveRate e.fxRates candCurrency tx.date else none
    let compareCandAmount :=
      match rate with
      | some rate => A.div candAmount rate
      | none => candAmount
    let currencyScore : ℚ :=
      if ¬isFx then 1
      else if rate.isSome ∨ txCurrency ∈ mainCurrencies ∧ candCurrency ∈ mainCurrencies then A.lit (7 / 10)
      else A.lit (5 / 10)
    let tolerance := if isFx then e.config.amountToleranceFx else e.config.amountToleranceNative
    let amountScore := scoreAmount A txAmount compareCandAmount tolerance isFx
    let dateScore := scoreDate A (parseDate tx.date) candDate (decide (candidateType = .expense))
    let textScore := textSimilarity e.python (buildTxText tx) candText
    let refScore :=
      if candRef = "" then 0 else textSimilarity e.python (tx.reference ++ " " ++ tx.paymentRef) candRef
    let w := adjustedWeights A weights isFx
    let total :=
      A.add (A.add (A.add (A.add (A.mul w.amount amountScore) (A.mul w.date dateScore)) (A.mul w.text textScore))
        (A.mul w.reference refScore)) (A.mul w.currency currencyScore)
    (A.round 3 total,
      ⟨A.round 3 amountScore, A.round 3 dateScore, A.round 3 textScore, A.round 3 refScore, A.round 3 currencyScore⟩)

/-- The suggestions a transaction has do not count. -/
@[simp] theorem scorePair_matchSuggestions (e : BulkMatchingEngine) (tx : Tx)
    (suggestions : Option MatchSuggestions) (candidate : Candidate) (candidateType : DocType) :
    e.scorePair { tx with matchSuggestions := suggestions } candidate candidateType =
      e.scorePair tx candidate candidateType := by
  simp only [scorePair, buildTxText]

/-- The zone of a score. -/
def confidence (e : BulkMatchingEngine) (score : ℚ) : Confidence :=
  if e.config.highConfidence ≤ score then .high
  else if e.config.mediumConfidence ≤ score then .medium
  else .low

/-- `_build_suggestion`. -/
def buildSuggestion (e : BulkMatchingEngine) (candidate : Candidate) (score : ℚ) (details : ScoreDetails)
    (candidateType : DocType) (txCurrency : String) : Suggestion :=
  let amount := if candidate.displayAmount = 0 then candidate.amount else candidate.displayAmount
  let currency := normalizeCurrency candidate.currency
  let date := orElse candidate.displayDate candidate.date
  let displayLabel :=
    orElse candidate.displayName
      (if candidateType = .invoice then candidate.partnerName else candidate.description)
  let displayRef :=
    orElse candidate.displayRef (if candidateType = .invoice then candidate.name else candidate.employeeName)
  let rate :=
    if currency ≠ txCurrency ∧ ¬e.fxRates.isEmpty then positiveRate e.fxRates currency date else none
  { type := candidateType
    id := orElse displayRef displayLabel
    partnerName := displayLabel
    amount := amount
    currency := currency
    date := date
    score := score
    confidence := e.confidence score
    scoreDetails := details
    fxRate := rate.map (e.numbers.round 6)
    fxConvertedAmount := rate.map fun r => e.numbers.round 2 (e.numbers.div amount r)
    internalId := (candidate.id.or candidate.jobId).or (.str "")
    jobId := candidate.jobId.or (.str "")
    fileId := candidate.fileId.or (.str "") }

end BulkMatchingEngine

end Pinnokio.Matching
