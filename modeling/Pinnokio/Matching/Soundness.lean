import Mathlib.Tactic.NormNum
import Pinnokio.Matching.Components
import Pinnokio.Matching.Currencies

/-!
# What a suggestion promises

With the usual configuration and exact arithmetic the weights of a pair are a distribution, whether or not its
currencies are converted, and the components are between zero and one: so is the score.  A suggestion has passed two
thresholds, of the score and of the component of the amount, which says how far the amounts may be apart; and its
transaction has the sign of its kind.

* `Weights.Distribution.adjusted` — a conversion shifts weight and loses none;
* `components_inUnit` — every component is between zero and one;
* `sound_of_batchSuggestion` — what the two thresholds say;
* `suggestions_sound` — **every suggestion is sound**, in a batch and for a document that arrives alone.
-/

namespace Pinnokio.Matching

open Pinnokio.Text Pinnokio.Numbers

/-! ### Weights -/

/-- Weights that are not negative and sum to one. -/
structure Weights.Distribution (w : Weights) : Prop where
  amount : 0 ≤ w.amount
  date : 0 ≤ w.date
  text : 0 ≤ w.text
  reference : 0 ≤ w.reference
  currency : 0 ≤ w.currency
  sum : w.amount + w.date + w.text + w.reference + w.currency = 1

/-- Components between zero and one. -/
structure ScoreDetails.InUnit (s : ScoreDetails) : Prop where
  amount : 0 ≤ s.amount ∧ s.amount ≤ 1
  date : 0 ≤ s.date ∧ s.date ≤ 1
  text : 0 ≤ s.text ∧ s.text ≤ 1
  reference : 0 ≤ s.reference ∧ s.reference ≤ 1
  currency : 0 ≤ s.currency ∧ s.currency ≤ 1

section Weights

variable {w : Weights} {s : ScoreDetails}

/-- **A conversion shifts weight and loses none.** -/
theorem Weights.Distribution.adjusted (h : w.Distribution) (isFx : Bool) :
    (BulkMatchingEngine.adjustedWeights .exact w isFx).Distribution := by
  have hamount := h.amount
  cases isFx with
  | false => exact h
  | true =>
      exact
        { amount := by
            show 0 ≤ w.amount - w.amount * (15 / 100)
            linarith
          date := by
            have hdate := h.date
            show 0 ≤ w.date + w.amount * (15 / 100) / 2
            linarith
          text := by
            have htext := h.text
            show 0 ≤ w.text + w.amount * (15 / 100) / 2
            linarith
          reference := h.reference
          currency := h.currency
          sum := by
            show w.amount - w.amount * (15 / 100) + (w.date + w.amount * (15 / 100) / 2) +
              (w.text + w.amount * (15 / 100) / 2) + w.reference + w.currency = 1
            rw [← h.sum]
            ring }

theorem Weights.Distribution.total_nonneg (h : w.Distribution) (hs : s.InUnit) : 0 ≤ w.total .exact s := by
  have hamount := mul_nonneg h.amount hs.amount.1
  have hdate := mul_nonneg h.date hs.date.1
  have htext := mul_nonneg h.text hs.text.1
  have hreference := mul_nonneg h.reference hs.reference.1
  have hcurrency := mul_nonneg h.currency hs.currency.1
  simp only [Weights.total, Rounding.exact_add, Rounding.exact_mul]
  linarith

theorem Weights.Distribution.total_le_one (h : w.Distribution) (hs : s.InUnit) : w.total .exact s ≤ 1 := by
  have hamount := mul_le_of_le_one_right h.amount hs.amount.2
  have hdate := mul_le_of_le_one_right h.date hs.date.2
  have htext := mul_le_of_le_one_right h.text hs.text.2
  have hreference := mul_le_of_le_one_right h.reference hs.reference.2
  have hcurrency := mul_le_of_le_one_right h.currency hs.currency.2
  simp only [Weights.total, Rounding.exact_add, Rounding.exact_mul]
  rw [← h.sum]
  linarith

end Weights

namespace BulkMatchingEngine

/-! ### Components -/

section Unit

variable {e : BulkMatchingEngine} {tx : Tx} {c : Candidate} {type : DocType}

theorem textSimilarity_nonneg (python : Interpreter) (s t : String) : 0 ≤ textSimilarity python s t := by
  rw [textSimilarity]
  split
  · exact le_rfl
  · dsimp only
    split
    · exact zero_le_one
    · apply python.numbers.rnd_nonneg
      rw [SequenceMatcher.ratio]
      split
      · exact zero_le_one
      · exact div_nonneg (mul_nonneg zero_le_two (Nat.cast_nonneg _)) (Nat.cast_nonneg _)

theorem scoreDate_unit (A : Rounding) (date1 date2 : Option ℕ) (isExpense : Bool) :
    0 ≤ scoreDate A date1 date2 isExpense ∧ scoreDate A date1 date2 isExpense ≤ 1 := by
  have hlit {x : ℚ} (hlo : 0 ≤ x) (hhi : x ≤ 1) : 0 ≤ A.lit x ∧ A.lit x ≤ 1 := A.lit_unit hlo hhi
  unfold scoreDate
  split
  · dsimp only
    split_ifs
    all_goals first
      | exact hlit (by norm_num) (by norm_num)
      | norm_num
  · exact hlit (by norm_num) (by norm_num)

theorem textSimilarity_unit (python : Interpreter) (s t : String) :
    0 ≤ textSimilarity python s t ∧ textSimilarity python s t ≤ 1 :=
  ⟨textSimilarity_nonneg python s t, textSimilarity_le_one python s t⟩

/-- **Every component is between zero and one.** -/
theorem components_inUnit : (e.components tx c type).InUnit := by
  constructor
  · rw [components_amount]
    exact scoreAmount_unit _ _ _ _ _
  · rw [components_date]
    exact scoreDate_unit _ _ _ _
  · rw [components_text]
    exact textSimilarity_unit _ _ _
  · rw [components_reference]
    split_ifs
    · exact ⟨le_rfl, zero_le_one⟩
    · exact textSimilarity_unit _ _ _
  · rw [components_currency]
    split_ifs
    · exact ⟨zero_le_one, le_rfl⟩
    · exact e.numbers.lit_unit (by norm_num) (by norm_num)
    · exact e.numbers.lit_unit (by norm_num) (by norm_num)

theorem pairWeights_distribution (hexact : e.numbers = .exact) (hconfig : e.config = {}) :
    (e.pairWeights tx c type).Distribution := by
  have hinvoice : e.config.invoiceWeights.Distribution := by
    rw [hconfig]
    constructor <;> norm_num
  have hexpense : e.config.expenseWeights.Distribution := by
    rw [hconfig]
    constructor <;> norm_num
  rw [pairWeights, hexact]
  apply Weights.Distribution.adjusted
  split
  · exact hinvoice
  · exact hexpense

/-- **The score is between zero and one.** -/
theorem scorePair_unit (hexact : e.numbers = .exact) (hconfig : e.config = {}) :
    0 ≤ (e.scorePair tx c type).1 ∧ (e.scorePair tx c type).1 ≤ 1 := by
  by_cases hc : c.amount = 0
  · rw [scorePair_of_zero hc]
    exact ⟨le_rfl, zero_le_one⟩
  · have hweights : (e.pairWeights tx c type).Distribution := pairWeights_distribution hexact hconfig
    rw [scorePair_eq hc, hexact]
    constructor
    · rw [← Rounding.exact.round_zero 3]
      exact Rounding.exact.round_mono 3 (hweights.total_nonneg components_inUnit)
    · conv_rhs => rw [← Rounding.exact.round_one]
      exact Rounding.exact.round_mono 3 (hweights.total_le_one components_inUnit)

end Unit

/-! ### Suggestions -/

/-- The sign that the kind of a document requires of a transaction. -/
def HasSign (type : DocType) (tx : Tx) : Prop := if type = .arInvoice then 0 < tx.amount else tx.amount < 0

/-- A suggestion made of a document for a transaction: its score is that of the pair and at least 0.35, the compared
amounts differ by at most a fifth of the larger one, and the transaction has the sign of the kind. -/
structure Sound (e : BulkMatchingEngine) (tx : Tx) (c : Candidate) (s : Suggestion) : Prop where
  ofPair : s.score = (e.scorePair tx c (scoringType s.type)).1
  shown : 35 / 100 ≤ s.score
  close : Close (20 / 100) |tx.amount| (e.comparedAmount tx c)
  sign : HasSign s.type tx

section Suggestions

variable {e : BulkMatchingEngine} {tx : Tx} {c : Candidate} {type : DocType} {s : Suggestion}

theorem comparedAmount_nonneg : 0 ≤ e.comparedAmount tx c := by
  rw [comparedAmount]
  cases hrate : e.pairRate tx c with
  | none => exact abs_nonneg c.amount
  | some rate => exact e.numbers.rnd_nonneg (div_nonneg (abs_nonneg c.amount) (pairRate_pos hrate).le)

/-- **What the threshold of the amount says.** -/
theorem close_of_amount (hexact : e.numbers = .exact) (hconfig : e.config = {})
    (h : e.numbers.lit (40 / 100) ≤ (e.scorePair tx c type).2.amount) :
    tx.amount ≠ 0 ∧ Close (20 / 100) |tx.amount| (e.comparedAmount tx c) := by
  rw [hexact, Rounding.exact_lit] at h
  by_cases hc : c.amount = 0
  · rw [scorePair_of_zero hc] at h
    norm_num at h
  · rw [scorePair_eq hc] at h
    change 40 / 100 ≤ e.numbers.round 3 (e.components tx c type).amount at h
    rw [round_components.1, components_amount, hexact] at h
    have htx : tx.amount ≠ 0 := by
      intro hzero
      rw [hzero, abs_zero, scoreAmount_zero] at h
      norm_num at h
    refine ⟨htx, ?_⟩
    by_contra hfar
    have hmax : 0 < max |(|tx.amount|)| |e.comparedAmount tx c| :=
      lt_max_of_lt_left (abs_pos.mpr (abs_ne_zero.mpr htx))
    have hratio : Rounding.exact.lit (20 / 100) < Rounding.exact.div
        |Rounding.exact.sub (|tx.amount|) (e.comparedAmount tx c)| (max |(|tx.amount|)| |e.comparedAmount tx c|) := by
      rw [Rounding.exact_lit, Rounding.exact_div, Rounding.exact_sub, lt_div_iff₀ hmax, abs_abs,
        abs_of_nonneg comparedAmount_nonneg]
      exact not_le.mp hfar
    have htolerance : e.pairTolerance tx c ≤ Rounding.exact.lit (20 / 100) := by
      rw [pairTolerance, hconfig, Rounding.exact_lit]
      split <;> norm_num
    rw [scoreAmount_eq_zero htolerance hratio] at h
    norm_num at h

theorem sound_of_batchSuggestion (hexact : e.numbers = .exact) (hconfig : e.config = {})
    (hsign : signMatches type tx = true) (h : e.batchSuggestion tx c type = some s) : s.type = type ∧ e.Sound tx c s := by
  simp only [batchSuggestion] at h
  split at h
  · next hshown =>
    cases h
    obtain ⟨htx, hclose⟩ := close_of_amount hexact hconfig hshown.2
    refine ⟨rfl, rfl, ?_, hclose, ?_⟩
    · rw [hconfig] at hshown
      exact hshown.1
    · show HasSign type tx
      rw [signMatches] at hsign
      rw [HasSign]
      split at hsign
      · next har =>
        rw [if_pos har]
        exact lt_of_le_of_ne (of_decide_eq_true hsign) htx.symm
      · next hother =>
        rw [if_neg hother]
        exact of_decide_eq_true hsign
  · cases h

theorem sound_of_suggestionFor (hexact : e.numbers = .exact) (hconfig : e.config = {})
    (h : e.suggestionFor c type tx = some s) : s.type = type ∧ e.Sound tx c s := by
  rw [suggestionFor_eq] at h
  split at h
  · next hsign => exact sound_of_batchSuggestion hexact hconfig hsign h
  · cases h

/-- A score that is found is that of some transaction with the id. -/
theorem exists_of_get?_scoreSingleCandidate {transactions : List Tx} {id : String}
    (h : (e.scoreSingleCandidate c type transactions).get? id = some s) :
    ∃ tx ∈ transactions, tx.id = id ∧ e.suggestionFor c type tx = some s := by
  induction transactions using List.reverseRecOn with
  | nil => cases h
  | append_singleton transactions tx ih =>
      rw [scoreSingleCandidate, List.foldl_append, List.foldl_cons, List.foldl_nil] at h
      have hearlier (h : (e.scoreSingleCandidate c type transactions).get? id = some s) :
          ∃ tx' ∈ transactions ++ [tx], tx'.id = id ∧ e.suggestionFor c type tx' = some s := by
        obtain ⟨tx', hmem, hid, hs⟩ := ih h
        exact ⟨tx', List.mem_append_left _ hmem, hid, hs⟩
      split at h
      · exact hearlier h
      · next s' hs' =>
        rw [Dict.get?_set] at h
        split at h
        · next hid => exact ⟨tx, List.mem_append_right _ (List.mem_singleton_self tx), hid.symm, hs'.trans h⟩
        · exact hearlier h

/-- A match that a batch gives comes from a pair of it. -/
theorem exists_of_mem_topMatches {transactions : List Tx} {docs : OpenDocuments} {now id : String}
    {result : MatchSuggestions} (h : (e.computeSuggestions now transactions docs).get? id = some result)
    (hs : s ∈ result.topMatches) :
    ∃ p ∈ e.allPairs transactions docs, p.tx.id = id ∧ p.suggestion = s := by
  have hresult : ∃ tx ∈ transactions, tx.id = id ∧ result =
      resultOf now (e.buildTransferIndex transactions) (e.assigned (sortPairs (e.allPairs transactions docs))) tx := by
    have hfold : e.computeSuggestions now transactions docs =
        (transactions.map fun tx => (tx.id, resultOf now (e.buildTransferIndex transactions)
          (e.assigned (sortPairs (e.allPairs transactions docs))) tx)).foldl (fun d p => d.set p.1 p.2) ∅ := by
      rw [List.foldl_map]
      rfl
    rw [hfold, Dict.get?_foldl_set, Dict.get?_empty, Option.or_none] at h
    obtain ⟨tx, htx, heq⟩ := List.mem_map.mp (Dict.mem_of_lastOf h)
    exact ⟨tx, htx, congrArg Prod.fst heq, (congrArg Prod.snd heq).symm⟩
  obtain ⟨tx, -, rfl, rfl⟩ := hresult
  simp only [resultOf] at hs
  split at hs
  · cases hs
  · rw [(assigned_eq _).1] at hs
    obtain ⟨p, hp, hsuggestion⟩ := List.mem_map.mp hs
    obtain ⟨hmem, hid⟩ := Greedy.mem_share.mp hp
    exact ⟨p, mem_allPairs_of_accepted hmem, hid, hsuggestion⟩

/-- **Every suggestion is sound**, in exact arithmetic and whatever `str.lower` is. -/
theorem suggestions_sound (rates : FxRates) (python : Interpreter) :
    let e : BulkMatchingEngine := ⟨{}, rates, { python with numbers := .exact }⟩
    (∀ tx c type, (e.pairWeights tx c type).Distribution ∧ (e.components tx c type).InUnit ∧
        (c.amount ≠ 0 → (e.scorePair tx c type).1 =
          roundTo 3 ((e.pairWeights tx c type).total .exact (e.components tx c type))) ∧
        0 ≤ (e.scorePair tx c type).1 ∧ (e.scorePair tx c type).1 ≤ 1) ∧
      (∀ now transactions docs id result,
        (e.computeSuggestions now transactions docs).get? id = some result → ∀ s ∈ result.topMatches,
          ∃ tx ∈ transactions, tx.id = id ∧ ∃ c ∈ docs.ofType s.type, e.Sound tx c s) ∧
      ∀ c type transactions id s, (e.scoreSingleCandidate c type transactions).get? id = some s →
        s.type = type ∧ ∃ tx ∈ transactions, tx.id = id ∧ e.Sound tx c s := by
  intro e
  refine ⟨fun tx c type => ?_, fun now transactions docs id result hresult s hs => ?_,
    fun c type transactions id s hs => ?_⟩
  · refine ⟨pairWeights_distribution rfl rfl, components_inUnit, fun hc => ?_, scorePair_unit rfl rfl⟩
    rw [scorePair_eq hc]
    rfl
  · obtain ⟨p, hp, hid, rfl⟩ := exists_of_mem_topMatches hresult hs
    obtain ⟨htx, -, hsuits, hc, hsuggestion⟩ := mem_allPairs.mp hp
    have hmem := (mem_getBucketCandidates.mp hc).2.1
    obtain ⟨htype, hsound⟩ := sound_of_batchSuggestion rfl rfl ((suits_iff hmem).mp hsuits) hsuggestion
    rw [htype]
    exact ⟨p.tx, htx, hid, p.candidate, hmem, hsound⟩
  · obtain ⟨tx, htx, hid, hsuggestion⟩ := exists_of_get?_scoreSingleCandidate hs
    obtain ⟨htype, hsound⟩ := sound_of_suggestionFor rfl rfl hsuggestion
    exact ⟨htype, tx, htx, hid, hsound⟩

end Suggestions

end BulkMatchingEngine

end Pinnokio.Matching
