import Mathlib.Data.List.Infix
import Pinnokio.Matching.Scoring

/-!
# Evidence for a match

A pair of a transaction and an invoice gets points for a text and a reference that they share.  A text that is missing
is no evidence: `_text_similarity` looks at that first.  It then strips both texts and accepts that one contains the
other, as the empty text is contained in every text; and the reference of the transaction is put together with a space,
so that it is never missing.

* `strip_eq_empty_iff` — what is left of a text without a character that is not blank;
* `textSimilarity_of_blank` — a blank text that is not empty is similar to everything;
* `reference_sound_iff`, `text_sound_iff` — the two components, each on its own;
* `evidence_sound_iff` — **missing evidence does not count** exactly when no text of a pair is blank without being
  empty, and the transaction has a reference if the candidate has one.
-/

namespace Pinnokio.Matching

open Pinnokio.Text Pinnokio.Numbers

/-! ### Blank texts -/

section Blank

variable {python : Interpreter} {s t : String}

theorem nonBlank_append (s t : String) : nonBlank (s ++ t) = (nonBlank s || nonBlank t) := by
  rw [nonBlank, String.toList_append, List.any_append]
  rfl

/-- Dropping the blanks in front leaves a text that starts with another character. -/
theorem any_dropWhile (cs : List Char) :
    ((cs.dropWhile isSpace).any fun c => !isSpace c) = cs.any fun c => !isSpace c := by
  induction cs with
  | nil => rfl
  | cons c cs ih =>
      by_cases hc : isSpace c = true
      · rw [List.dropWhile_cons_of_pos hc, ih, List.any_cons, hc]
        rfl
      · rw [List.dropWhile_cons_of_neg hc]

theorem dropWhile_eq_nil {cs : List Char} (h : (cs.any fun c => !isSpace c) = false) : cs.dropWhile isSpace = [] := by
  induction cs with
  | nil => rfl
  | cons c cs ih =>
      rw [List.any_cons, Bool.or_eq_false_iff] at h
      have hc : isSpace c = true := by simpa using h.1
      rw [List.dropWhile_cons_of_pos hc, ih h.2]

theorem nonBlank_strip (s : String) : nonBlank (strip s) = nonBlank s := by
  rw [nonBlank, strip, String.toList_ofList, List.any_reverse, any_dropWhile, List.any_reverse, any_dropWhile]
  rfl

/-- **Nothing is left of a blank text**, and of no other one. -/
theorem strip_eq_empty_iff : strip s = "" ↔ nonBlank s = false := by
  constructor
  · intro h
    rw [← nonBlank_strip, h]
    rfl
  · intro h
    rw [strip, dropWhile_eq_nil h]
    rfl

/-- The empty text is contained in every text. -/
theorem containedIn_empty (t : String) : containedIn "" t = true := by
  rw [containedIn, List.any_eq_true]
  exact ⟨t.toList, (List.mem_tails _ _).mpr (List.suffix_refl _), rfl⟩

/-- **A blank text** that is not empty is similar to everything. -/
theorem textSimilarity_of_blank (hs : s ≠ "") (ht : t ≠ "") (h : nonBlank s = false ∨ nonBlank t = false) :
    textSimilarity python s t = 1 := by
  have hcontained : containedIn (strip (python.lower s)) (strip (python.lower t)) = true ∨
      containedIn (strip (python.lower t)) (strip (python.lower s)) = true := by
    rcases h with hblank | hblank
    · left
      rw [strip_eq_empty_iff.mpr (python.lower_blank s hblank)]
      exact containedIn_empty _
    · right
      rw [strip_eq_empty_iff.mpr (python.lower_blank t hblank)]
      exact containedIn_empty _
  rw [textSimilarity, if_neg (not_or.mpr ⟨hs, ht⟩)]
  exact if_pos hcontained

/-- A missing text is similar to nothing. -/
theorem textSimilarity_of_empty (h : s = "" ∨ t = "") : textSimilarity python s t = 0 := if_pos h

/-- **Points for a text** are sound exactly when it is missing on one side, or blank on neither. -/
theorem similarity_sound_iff (e : BulkMatchingEngine) (s t : String) :
    (0 < e.numbers.round 3 (textSimilarity e.python s t) → nonBlank s = true ∧ nonBlank t = true) ↔
      s = "" ∨ t = "" ∨ nonBlank s = true ∧ nonBlank t = true := by
  constructor
  · intro hsound
    by_contra hnot
    simp only [not_or] at hnot
    obtain ⟨hs, ht, hblank⟩ := hnot
    have hone : textSimilarity e.python s t = 1 := by
      refine textSimilarity_of_blank hs ht ?_
      rw [← Bool.not_eq_true, ← Bool.not_eq_true, ← not_and_or]
      exact hblank
    rw [hone, Rounding.round_one] at hsound
    exact hblank (hsound one_pos)
  · rintro (hs | ht | hboth) hpos
    · rw [textSimilarity_of_empty (.inl hs), Rounding.round_zero] at hpos
      exact absurd hpos (lt_irrefl 0)
    · rw [textSimilarity_of_empty (.inr ht), Rounding.round_zero] at hpos
      exact absurd hpos (lt_irrefl 0)
    · exact hboth

end Blank

/-! ### The components of a pair -/

namespace BulkMatchingEngine

/-- The reference of an invoice. -/
def invoiceRef (candidate : Candidate) : String :=
  orElse (orElse candidate.ref candidate.paymentReference) candidate.name

/-- The reference component counts evidence only: if it is positive, both sides have a reference. -/
def ReferenceSound (e : BulkMatchingEngine) (tx : Tx) (candidate : Candidate) : Prop :=
  0 < (e.scorePair tx candidate .invoice).2.reference →
    (nonBlank tx.reference || nonBlank tx.paymentRef) = true ∧ nonBlank (invoiceRef candidate) = true

/-- The text component counts evidence only: if it is positive, both sides have a text. -/
def TextSound (e : BulkMatchingEngine) (tx : Tx) (candidate : Candidate) : Prop :=
  0 < (e.scorePair tx candidate .invoice).2.text →
    nonBlank (buildTxText tx) = true ∧ nonBlank candidate.partnerName = true

section Components

variable (e : BulkMatchingEngine) (tx : Tx) (candidate : Candidate)

/-- The two components of a pair. -/
theorem details_of_amount (h : candidate.amount ≠ 0) :
    (e.scorePair tx candidate .invoice).2.reference =
        e.numbers.round 3 (if invoiceRef candidate = "" then 0
          else textSimilarity e.python (tx.reference ++ " " ++ tx.paymentRef) (invoiceRef candidate)) ∧
      (e.scorePair tx candidate .invoice).2.text =
        e.numbers.round 3 (textSimilarity e.python (buildTxText tx) candidate.partnerName) := by
  have hamount : |candidate.amount| ≠ 0 := abs_ne_zero.mpr h
  unfold scorePair
  dsimp only
  rw [if_neg hamount]
  exact ⟨rfl, rfl⟩

/-- A candidate without an amount gets no points. -/
theorem details_of_zero (h : candidate.amount = 0) :
    (e.scorePair tx candidate .invoice).2 = ⟨0, 0, 0, 0, 0⟩ := by
  have hamount : |candidate.amount| = 0 := abs_eq_zero.mpr h
  unfold scorePair
  dsimp only
  rw [if_pos hamount]

/-- The reference of a transaction, with the space. -/
theorem nonBlank_reference :
    nonBlank (tx.reference ++ " " ++ tx.paymentRef) = (nonBlank tx.reference || nonBlank tx.paymentRef) := by
  rw [nonBlank_append, nonBlank_append]
  have hspace : nonBlank " " = false := by decide
  rw [hspace, Bool.or_false]

theorem reference_ne_empty : tx.reference ++ " " ++ tx.paymentRef ≠ "" := by
  intro h
  have hlength := congrArg String.length h
  simp only [String.length_append] at hlength
  have hspace : " ".length = 1 := rfl
  have hempty : "".length = 0 := rfl
  omega

/-- **The reference component** is sound exactly when the candidate has no reference, or neither side a blank one. -/
theorem reference_sound_iff : e.ReferenceSound tx candidate ↔
    candidate.amount = 0 ∨ invoiceRef candidate = "" ∨
      (nonBlank tx.reference || nonBlank tx.paymentRef) = true ∧ nonBlank (invoiceRef candidate) = true := by
  unfold ReferenceSound
  by_cases hamount : candidate.amount = 0
  · rw [details_of_zero e tx candidate hamount]
    exact iff_of_true (fun hpos => absurd hpos (lt_irrefl 0)) (.inl hamount)
  · rw [(details_of_amount e tx candidate hamount).1, or_iff_right hamount, ← nonBlank_reference]
    by_cases href : invoiceRef candidate = ""
    · rw [if_pos href, Rounding.round_zero]
      exact iff_of_true (fun hpos => absurd hpos (lt_irrefl 0)) (.inl href)
    · rw [if_neg href, similarity_sound_iff, or_iff_right (reference_ne_empty tx)]

/-- **The text component** is sound exactly when a side has no text, or neither side a blank one. -/
theorem text_sound_iff : e.TextSound tx candidate ↔
    candidate.amount = 0 ∨ buildTxText tx = "" ∨ candidate.partnerName = "" ∨
      nonBlank (buildTxText tx) = true ∧ nonBlank candidate.partnerName = true := by
  unfold TextSound
  by_cases hamount : candidate.amount = 0
  · rw [details_of_zero e tx candidate hamount]
    exact iff_of_true (fun hpos => absurd hpos (lt_irrefl 0)) (.inl hamount)
  · rw [(details_of_amount e tx candidate hamount).2, or_iff_right hamount, similarity_sound_iff]

end Components

/-- **Missing evidence does not count**, for an invoice of a supplier or to a customer, exactly when the candidate has
no amount, or no text of the pair is blank without being empty and the transaction has a reference if the candidate has
one. -/
theorem evidence_sound_iff (e : BulkMatchingEngine) (tx : Tx) (candidate : Candidate) :
    e.ReferenceSound tx candidate ∧ e.TextSound tx candidate ↔
      candidate.amount = 0 ∨
        (invoiceRef candidate = "" ∨
          (nonBlank tx.reference || nonBlank tx.paymentRef) = true ∧ nonBlank (invoiceRef candidate) = true) ∧
        (buildTxText tx = "" ∨ candidate.partnerName = "" ∨
          nonBlank (buildTxText tx) = true ∧ nonBlank candidate.partnerName = true) := by
  rw [reference_sound_iff, text_sound_iff]
  exact or_and_left.symm

/-- A transaction without a reference gets full marks for the reference of an invoice. -/
theorem missing_reference_counts :
    let tx : Tx := ⟨"1", -100, "CHF", "2026-01-15", "", "", "Hotel", "", none, none, none, none, none⟩
    let invoice : Candidate := ⟨100, "CHF", "2026-01-15", "", "", "Hotel", "INV-7", "", "", "", "", "", "", "", 0, "",
      .none, .none, .none⟩
    ((withRates .binary64 ∅).scorePair tx invoice .invoice).2.reference = 1 ∧
      ¬(withRates .binary64 ∅).ReferenceSound tx invoice := by
  intro tx invoice
  have hone : ((withRates .binary64 ∅).scorePair tx invoice .invoice).2.reference = 1 := by decide +kernel
  refine ⟨hone, fun hsound => ?_⟩
  have hboth := hsound (by rw [hone]; exact one_pos)
  exact absurd hboth.1 (by decide)

end BulkMatchingEngine

end Pinnokio.Matching
