import Pinnokio.Matching.BulkSuggestions

/-!
# What the amount index loses

A batch looks for the documents of a transaction in the buckets next to the one of its amount; a new document that
arrives alone (`score_single_candidate`) is compared with every transaction.  The buckets are those of the amounts as
they stand, while a pair in two currencies is judged on converted amounts.

* `amounts_of_isSome`, `close_of_isSome` — a pair that fits has amounts that are not zero, and with the usual
  configuration and exact arithmetic those of a pair that was not converted differ by at most a fifth;
* `indexedTriples_eq_iff` — **the index loses nothing exactly when every pair that fits has buckets next to each
  other**, and in exact arithmetic only a pair that was converted with a rate can have others.
-/

namespace Pinnokio.Matching.BulkMatchingEngine

open Pinnokio.Text Pinnokio.Numbers

variable (e : BulkMatchingEngine)

/-- The rate a pair is converted with. -/
def pairRate (tx : Tx) (c : Candidate) : Option ℚ :=
  if normalizeCurrency tx.currency ≠ normalizeCurrency c.currency ∧ ¬e.fxRates.isEmpty then
    positiveRate e.fxRates (normalizeCurrency c.currency) tx.date
  else none

/-- The tolerance a pair is judged with. -/
def pairTolerance (tx : Tx) (c : Candidate) : ℚ :=
  if normalizeCurrency tx.currency ≠ normalizeCurrency c.currency then e.config.amountToleranceFx
  else e.config.amountToleranceNative

/-- What the first phase collects: the transaction, the document and the score. -/
def indexedTriples (transactions : List Tx) (docs : OpenDocuments) : Set (Tx × DocType × Candidate × ℚ) :=
  {t | ∃ p ∈ e.allPairs transactions docs, t = (p.tx, p.type, p.candidate, p.score)}

/-- What there is to collect: every document of the batch scored alone against every transaction that is not part of
a transfer. -/
def unindexedTriples (transactions : List Tx) (docs : OpenDocuments) : Set (Tx × DocType × Candidate × ℚ) :=
  {t | ∃ tx ∈ transactions, (e.buildTransferIndex transactions).get? tx.id = none ∧
    ∃ type, ∃ c ∈ docs.ofType type, ∃ s,
      (e.scoreSingleCandidate c type [tx]).get? tx.id = some s ∧ t = (tx, type, c, s.score)}

variable {e} {transactions : List Tx} {docs : OpenDocuments} {tx : Tx} {c : Candidate} {type : DocType}

/-! ### Pairs that fit -/

theorem get?_scoreSingleCandidate_singleton :
    (e.scoreSingleCandidate c type [tx]).get? tx.id = e.suggestionFor c type tx :=
  by
  have hids : ([tx].map Tx.id).Nodup := List.nodup_singleton tx.id
  exact get?_scoreSingleCandidate hids (List.mem_singleton_self tx)

/-- The documents of a kind suit the transactions of the right sign. -/
theorem suits_iff (hc : c ∈ docs.ofType type) : Suits tx type ↔ signMatches type tx = true := by
  cases type with
  | invoice => simp [Suits, signMatches]
  | expense => simp [Suits, signMatches]
  | arInvoice => simp [Suits, signMatches]
  | other name => cases hc

/-- The part of the amount in the score of a pair. -/
theorem scorePair_amount (type : DocType) : (e.scorePair tx c type).2.amount =
    if |c.amount| = 0 then 0
    else
      e.numbers.round 3 (scoreAmount e.numbers |tx.amount|
        ((e.pairRate tx c).elim |c.amount| fun rate => e.numbers.div |c.amount| rate)
        (e.pairTolerance tx c) (decide (normalizeCurrency tx.currency ≠ normalizeCurrency c.currency))) := by
  have hrate : (if decide (normalizeCurrency tx.currency ≠ normalizeCurrency c.currency) = true ∧
      ¬e.fxRates.isEmpty then positiveRate e.fxRates (normalizeCurrency c.currency) tx.date else none) =
      e.pairRate tx c := by
    simp only [pairRate, decide_eq_true_eq]
  simp only [scorePair, pairTolerance, decide_eq_true_eq] at hrate ⊢
  rw [hrate]
  split
  · rfl
  · cases e.pairRate tx c <;> rfl

theorem scoreAmount_zero (A : Rounding) (actual tolerance : ℚ) (isFx : Bool) :
    scoreAmount A 0 actual tolerance isFx = 0 :=
  if_pos (Or.inl rfl)

/-- Amounts that differ by more than a fifth, and by more than the tolerance, get nothing. -/
theorem scoreAmount_eq_zero {A : Rounding} {expected actual tolerance : ℚ} {isFx : Bool}
    (htol : tolerance ≤ A.lit (20 / 100))
    (hfar : A.lit (20 / 100) < A.div |A.sub expected actual| (max |expected| |actual|)) :
    scoreAmount A expected actual tolerance isFx = 0 := by
  have hbelow {x : ℚ} (h : x ≤ 20 / 100) : A.lit x ≤ A.lit (20 / 100) := A.mono h
  unfold scoreAmount
  split
  · rfl
  · have hfx : (if isFx then A.lit (10 / 100) else tolerance) ≤ A.lit (20 / 100) := by
      split
      · exact hbelow (by norm_num)
      · exact htol
    have hsmall : A.lit (2 / 100) ≤ A.lit (20 / 100) := hbelow (by norm_num)
    have hmiddle : A.lit (15 / 100) ≤ A.lit (20 / 100) := hbelow (by norm_num)
    simp only
    rw [if_neg (by linarith), if_neg (by linarith), if_neg (by linarith), if_neg (by rintro ⟨h, -⟩; linarith),
      if_neg (by linarith)]

theorem suits_of_isSome (h : (e.suggestionFor c type tx).isSome) :
    signMatches type tx = true ∧ e.numbers.lit (40 / 100) ≤ (e.scorePair tx c (scoringType type)).2.amount := by
  rw [suggestionFor_eq] at h
  split at h
  · next hsign =>
    simp only [batchSuggestion] at h
    split at h
    · next hfits => exact ⟨hsign, hfits.2⟩
    · cases h
  · cases h

/-- A pair that fits has amounts. -/
theorem amounts_of_isSome (h : (e.suggestionFor c type tx).isSome) : |tx.amount| ≠ 0 ∧ |c.amount| ≠ 0 := by
  have hamount := (suits_of_isSome h).2
  have hpos : 0 < e.numbers.lit (40 / 100) := e.numbers.lit_pos (by decide +kernel) (by norm_num) (by norm_num)
  rw [scorePair_amount] at hamount
  split at hamount
  · exact absurd hamount (not_le.mpr hpos)
  · next hc =>
    refine ⟨fun htx => ?_, hc⟩
    rw [htx, scoreAmount_zero, Rounding.round_zero] at hamount
    exact absurd hamount (not_le.mpr hpos)

/-- A pair that fits without being converted has amounts that differ by at most a fifth. -/
theorem close_of_isSome (hexact : e.numbers = .exact) (hconfig : e.config = {}) (hrate : e.pairRate tx c = none)
    (h : (e.suggestionFor c type tx).isSome) :
    |(|tx.amount| - |c.amount|)| ≤ 20 / 100 * max |tx.amount| |c.amount| := by
  obtain ⟨htx, hc⟩ := amounts_of_isSome h
  have hamount := (suits_of_isSome h).2
  rw [scorePair_amount, if_neg hc, hrate] at hamount
  by_contra hfar
  have hpos : 0 < max |tx.amount| |c.amount| := lt_max_of_lt_left (lt_of_le_of_ne (abs_nonneg _) htx.symm)
  have hratio : Rounding.exact.lit (20 / 100) <
      Rounding.exact.div |Rounding.exact.sub (|tx.amount|) (|c.amount|)| (max |(|tx.amount|)| |(|c.amount|)|) := by
    rw [abs_abs, abs_abs, Rounding.exact_lit, Rounding.exact_div, Rounding.exact_sub, lt_div_iff₀ hpos]
    exact not_le.mp hfar
  have htol : e.pairTolerance tx c ≤ Rounding.exact.lit (20 / 100) := by
    rw [pairTolerance, hconfig, Rounding.exact_lit]
    split <;> norm_num
  rw [hexact, Option.elim_none, scoreAmount_eq_zero htol hratio, Rounding.round_zero, Rounding.exact_lit] at hamount
  exact absurd hamount (by norm_num)

/-! ### The index -/

/-- Every pair that fits has buckets next to each other. -/
def AllNear (e : BulkMatchingEngine) (transactions : List Tx) (docs : OpenDocuments) : Prop :=
  ∀ tx ∈ transactions, (e.buildTransferIndex transactions).get? tx.id = none →
    ∀ type, ∀ c ∈ docs.ofType type, (e.suggestionFor c type tx).isSome → e.Near |tx.amount| |c.amount|

/-- Every pair that fits after a conversion has whole amounts, cut off at five, that differ by one at most. -/
def ConvertedNear (e : BulkMatchingEngine) (transactions : List Tx) (docs : OpenDocuments) : Prop :=
  ∀ tx ∈ transactions, (e.buildTransferIndex transactions).get? tx.id = none →
    ∀ type, ∀ c ∈ docs.ofType type, (e.suggestionFor c type tx).isSome → (e.pairRate tx c).isSome →
      |min ⌊|tx.amount|⌋ 5 - min ⌊|c.amount|⌋ 5| ≤ 1

/-- What is collected is there to collect. -/
theorem indexedTriples_subset : e.indexedTriples transactions docs ⊆ e.unindexedTriples transactions docs := by
  intro t h
  obtain ⟨p, hp, rfl⟩ := h
  obtain ⟨htx, hnone, hsuits, hc, hs⟩ := mem_allPairs.mp hp
  have hc := (mem_getBucketCandidates.mp hc).2.1
  refine ⟨p.tx, htx, hnone, p.type, p.candidate, hc, p.suggestion, ?_, rfl⟩
  rw [get?_scoreSingleCandidate_singleton, suggestionFor_eq, if_pos ((suits_iff hc).mp hsuits), hs]

/-- A document that fits is collected exactly when its bucket is near. -/
theorem exists_pair_iff (htx : tx ∈ transactions) (hnone : (e.buildTransferIndex transactions).get? tx.id = none)
    (hc : c ∈ docs.ofType type) {s : Suggestion} (hs : e.suggestionFor c type tx = some s) :
    (tx, type, c, s.score) ∈ e.indexedTriples transactions docs ↔ e.Near |tx.amount| |c.amount| := by
  have hsome : (e.suggestionFor c type tx).isSome := by rw [hs]; rfl
  constructor
  · intro h
    obtain ⟨p, hp, heq⟩ := h
    simp only [Prod.mk.injEq] at heq
    obtain ⟨rfl, rfl, rfl, -⟩ := heq
    exact (mem_getBucketCandidates.mp (mem_allPairs.mp hp).2.2.2.1).2.2.2
  · intro hnear
    obtain ⟨hne, hne'⟩ := amounts_of_isSome hsome
    have hsign := (suits_of_isSome hsome).1
    rw [suggestionFor_eq, if_pos hsign] at hs
    refine ⟨⟨tx, type, c, s⟩, mem_allPairs.mpr ⟨htx, hnone, (suits_iff hc).mpr hsign, ?_, hs⟩, rfl⟩
    exact mem_getBucketCandidates.mpr ⟨hne, hc, hne', hnear⟩

theorem indexedTriples_eq_iff_allNear :
    e.indexedTriples transactions docs = e.unindexedTriples transactions docs ↔ e.AllNear transactions docs := by
  constructor
  · intro heq tx htx hnone type c hc hsome
    obtain ⟨s, hs⟩ := Option.isSome_iff_exists.mp hsome
    refine (exists_pair_iff htx hnone hc hs).mp ?_
    rw [heq]
    exact ⟨tx, htx, hnone, type, c, hc, s, by rw [get?_scoreSingleCandidate_singleton, hs], rfl⟩
  · intro hnear
    refine Set.Subset.antisymm indexedTriples_subset ?_
    intro t h'
    obtain ⟨tx, htx, hnone, type, c, hc, s, hs, rfl⟩ := h'
    rw [get?_scoreSingleCandidate_singleton] at hs
    refine (exists_pair_iff htx hnone hc hs).mpr (hnear tx htx hnone type c hc ?_)
    rw [hs]
    rfl

/-- With the usual configuration and exact arithmetic only conversions matter. -/
theorem allNear_iff_convertedNear (hexact : e.numbers = .exact) (hconfig : e.config = {}) :
    e.AllNear transactions docs ↔ e.ConvertedNear transactions docs := by
  have hpct : e.config.bucketPct = 20 / 100 := by rw [hconfig]
  have hbuckets : ∀ a b : ℚ, e.Near a b ↔ |min ⌊a⌋ 5 - min ⌊b⌋ 5| ≤ 1 := by
    intro a b
    rw [Near, amountBucket_eq hexact hpct, amountBucket_eq hexact hpct]
  constructor
  · exact fun h tx htx hnone type c hc hsome _ => (hbuckets _ _).mp (h tx htx hnone type c hc hsome)
  · intro h tx htx hnone type c hc hsome
    cases hrate : e.pairRate tx c with
    | none => exact near_of_close hexact hpct (close_of_isSome hexact hconfig hrate hsome)
    | some rate => exact (hbuckets _ _).mpr (h tx htx hnone type c hc hsome (by rw [hrate]; rfl))

/-- **When the index loses nothing.** -/
theorem indexedTriples_eq_iff (e : BulkMatchingEngine) (transactions : List Tx) (docs : OpenDocuments) :
    (e.indexedTriples transactions docs = e.unindexedTriples transactions docs ↔ e.AllNear transactions docs) ∧
      (e.numbers = .exact → e.config = {} →
        (e.indexedTriples transactions docs = e.unindexedTriples transactions docs ↔
          e.ConvertedNear transactions docs)) := by
  refine ⟨indexedTriples_eq_iff_allNear, fun hexact hconfig => ?_⟩
  rw [indexedTriples_eq_iff_allNear, allNear_iff_convertedNear hexact hconfig]

/-- Yen: 160 for a franc. -/
def yenRates : FxRates := Dict.ofList [("2026-03-05", Dict.ofList [("JPY", 160)])]

/-- A payment of 6.50 francs and an invoice of 1040 yen are both above five. -/
theorem indexedTriples_eq_large :
    let e : BulkMatchingEngine := .withRates .exact yenRates
    let docs : OpenDocuments := ⟨[invoiceDue 3001 1040 "JPY" "2026-03-05"], [], []⟩
    let transactions := [movement "601" (-65 / 10) 7 "2026-03-05"]
    (e.allPairs transactions docs).length = 1 ∧
      e.indexedTriples transactions docs = e.unindexedTriples transactions docs := by
  refine ⟨by decide +kernel, ((indexedTriples_eq_iff _ _ _).2 rfl rfl).mpr ?_⟩
  intro tx htx _ type c hc _ _
  rw [List.mem_singleton.mp htx]
  cases type with
  | invoice =>
      rw [List.mem_singleton.mp hc]
      decide +kernel
  | expense => cases hc
  | arInvoice => cases hc
  | other name => cases hc

/-- **A payment of 1.50 francs and an invoice of 240 yen fit, but their buckets are the second and the last one.** -/
theorem indexedTriples_ne_small :
    let e : BulkMatchingEngine := .withRates .exact yenRates
    let docs : OpenDocuments := ⟨[invoiceDue 3001 240 "JPY" "2026-03-05"], [], []⟩
    let transactions := [movement "601" (-15 / 10) 7 "2026-03-05"]
    (∀ day ∈ yenRates.entries, ∀ rate ∈ day.2.entries, 0 < rate.2) ∧
      e.indexedTriples transactions docs ≠ e.unindexedTriples transactions docs := by
  intro e docs transactions
  refine ⟨by decide +kernel, fun heq => ?_⟩
  have hpairs : (e.allPairs transactions docs).length = 0 := by decide +kernel
  have htransfer : ((e.buildTransferIndex transactions).get? "601").isNone = true := by decide +kernel
  have hfits : ((e.scoreSingleCandidate (invoiceDue 3001 240 "JPY" "2026-03-05") .invoice transactions).get?
      "601").isSome = true := by decide +kernel
  obtain ⟨s, hs⟩ := Option.isSome_iff_exists.mp hfits
  have hlost : (movement "601" (-15 / 10) 7 "2026-03-05", DocType.invoice,
      invoiceDue 3001 240 "JPY" "2026-03-05", s.score) ∈ e.unindexedTriples transactions docs :=
    ⟨_, List.mem_singleton_self _, Option.isNone_iff_eq_none.mp htransfer, .invoice, _,
      List.mem_singleton_self _, s, hs, rfl⟩
  rw [← heq] at hlost
  obtain ⟨p, hp, -⟩ := hlost
  rw [List.eq_nil_of_length_eq_zero hpairs] at hp
  cases hp

end Pinnokio.Matching.BulkMatchingEngine
