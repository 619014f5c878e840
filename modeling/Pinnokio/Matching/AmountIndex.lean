import Mathlib.Algebra.Order.Floor.Ring
import Mathlib.Data.List.Induction
import Mathlib.Data.Rat.Floor
import Mathlib.Tactic.Linarith
import Mathlib.Tactic.NormNum
import Pinnokio.Matching.Suggestions

/-!
# The amount index

A batch does not compare every transaction with every document.  Documents are filed in buckets by their amount, and
a transaction is compared with the documents of its own bucket and of the two next to it.  The width of a bucket
grows with the amount, and amounts are filed as they stand, in whatever currency they are.

* `mem_getBucketCandidates` — the documents a transaction is compared with;
* `amountBucket_eq` — with the usual width, a fifth of the amount, and exact arithmetic there are only six buckets;
* `near_of_close` — amounts that differ by at most a fifth are in the same bucket or in neighbouring ones.
-/

namespace Pinnokio.Matching

open Pinnokio.Text Pinnokio.Numbers

/-- A document with its place in the list it comes from, which tells it from all others. -/
abbrev Filed := Candidate × ℕ

/-- Buckets of documents. -/
abbrev AmountIndex := Dict ℤ (List Filed)

/-- `index.get(b, [])`. -/
def AmountIndex.bucket (index : AmountIndex) (b : ℤ) : List Filed := (index.get? b).getD []

/-- `index.setdefault(b, [])`. -/
def AmountIndex.ensure (index : AmountIndex) (b : ℤ) : AmountIndex :=
  if b ∈ index.keys then index else index.set b []

theorem AmountIndex.bucket_set (index : AmountIndex) (b b' : ℤ) (items : List Filed) :
    AmountIndex.bucket (index.set b items) b' = if b' = b then items else index.bucket b' := by
  simp only [bucket, Dict.get?_set]
  split <;> rfl

@[simp] theorem AmountIndex.bucket_ensure (index : AmountIndex) (b b' : ℤ) :
    (index.ensure b).bucket b' = index.bucket b' := by
  unfold ensure
  split
  · rfl
  · next hb =>
    rw [bucket_set]
    split
    · next heq =>
      subst heq
      rw [bucket, Dict.get?_eq_none_iff.mpr hb]
      rfl
    · rfl

namespace BulkMatchingEngine

variable (e : BulkMatchingEngine)

/-- `_amount_bucket`. -/
def amountBucket (amount : ℚ) : ℤ :=
  (e.numbers.div amount (max (e.numbers.mul amount e.config.bucketPct) 1)).floor

/-- A document is filed, unless its amount is zero. -/
def fileItem (index : AmountIndex) (item : Filed) : AmountIndex :=
  let amt := |item.1.amount|
  if amt = 0 then index
  else
    let b := e.amountBucket amt
    let index := ((index.ensure (b - 1)).ensure b).ensure (b + 1)
    index.set b (index.bucket b ++ [item])

/-- `_build_amount_index`. -/
def buildAmountIndex (items : List Candidate) : AmountIndex := items.zipIdx.foldl e.fileItem ∅

/-- An item is collected, unless it has been seen. -/
def collectItem (candidates : List Filed) (item : Filed) : List Filed :=
  if item.2 ∈ candidates.map Prod.snd then candidates else candidates ++ [item]

/-- `_get_bucket_candidates`. -/
def getBucketCandidates (txAmount : ℚ) (index : AmountIndex) : List Candidate :=
  if txAmount = 0 then []
  else
    let b := e.amountBucket txAmount
    ((index.bucket (b - 1) ++ index.bucket b ++ index.bucket (b + 1)).foldl collectItem []).map Prod.fst

/-- Two amounts whose buckets are the same or next to each other. -/
def Near (amount amount' : ℚ) : Prop := |e.amountBucket amount - e.amountBucket amount'| ≤ 1

instance (amount amount' : ℚ) : Decidable (e.Near amount amount') :=
  inferInstanceAs (Decidable (|e.amountBucket amount - e.amountBucket amount'| ≤ 1))

variable {e}

/-! ### What the index holds -/

theorem bucket_fileItem (index : AmountIndex) (item : Filed) (b : ℤ) :
    (e.fileItem index item).bucket b =
      if |item.1.amount| ≠ 0 ∧ e.amountBucket |item.1.amount| = b then index.bucket b ++ [item]
      else index.bucket b := by
  unfold fileItem
  by_cases hzero : |item.1.amount| = 0
  · rw [if_pos hzero, if_neg fun h => h.1 hzero]
  · rw [if_neg hzero, AmountIndex.bucket_set]
    simp only [AmountIndex.bucket_ensure]
    by_cases hb : e.amountBucket |item.1.amount| = b
    · rw [if_pos hb.symm, if_pos ⟨hzero, hb⟩, hb]
    · rw [if_neg (Ne.symm hb), if_neg fun h => hb h.2]

/-- A bucket holds the documents whose amount belongs there. -/
theorem mem_bucket_buildAmountIndex {items : List Candidate} {b : ℤ} {item : Filed} :
    item ∈ (e.buildAmountIndex items).bucket b ↔
      item ∈ items.zipIdx ∧ |item.1.amount| ≠ 0 ∧ e.amountBucket |item.1.amount| = b := by
  have hfold : ∀ (filed : List Filed),
      item ∈ (filed.foldl e.fileItem ∅).bucket b ↔
        item ∈ filed ∧ |item.1.amount| ≠ 0 ∧ e.amountBucket |item.1.amount| = b := by
    intro filed
    induction filed using List.reverseRecOn with
    | nil => simp [AmountIndex.bucket]
    | append_singleton filed x ih =>
        rw [List.foldl_append, List.foldl_cons, List.foldl_nil, bucket_fileItem, List.mem_append,
          List.mem_singleton]
        split
        · next hx =>
          rw [List.mem_append, List.mem_singleton, ih]
          constructor
          · intro h'
            rcases h' with ⟨hmem, hb⟩ | rfl
            · exact ⟨Or.inl hmem, hb⟩
            · exact ⟨Or.inr rfl, hx⟩
          · intro h'
            obtain ⟨hmem | heq, hb⟩ := h'
            · exact Or.inl ⟨hmem, hb⟩
            · exact Or.inr heq
        · next hx =>
          rw [ih]
          constructor
          · exact fun h => ⟨Or.inl h.1, h.2⟩
          · intro h
            obtain ⟨hmem | rfl, hb⟩ := h
            · exact ⟨hmem, hb⟩
            · exact absurd hb hx
  exact hfold items.zipIdx

/-- Collecting keeps one item of each place. -/
theorem mem_foldl_collectItem {items : List Filed}
    (hplace : ∀ x ∈ items, ∀ y ∈ items, x.2 = y.2 → x = y) (x : Filed) :
    x ∈ items.foldl collectItem [] ↔ x ∈ items := by
  induction items using List.reverseRecOn generalizing x with
  | nil => exact Iff.rfl
  | append_singleton items y ih =>
      have ih := ih fun a ha b hb => hplace a (List.mem_append_left _ ha) b (List.mem_append_left _ hb)
      rw [List.foldl_append, List.foldl_cons, List.foldl_nil, List.mem_append, List.mem_singleton]
      by_cases hseen : y.2 ∈ (items.foldl collectItem []).map Prod.snd
      · rw [collectItem, if_pos hseen, ih]
        obtain ⟨z, hz, hzy⟩ := List.mem_map.mp hseen
        have hz : z ∈ items := (ih z).mp hz
        have hy : y ∈ items := by
          rw [← hplace z (List.mem_append_left _ hz) y (by simp) hzy]
          exact hz
        constructor
        · exact Or.inl
        · intro h
          rcases h with hx | rfl
          · exact hx
          · exact hy
      · rw [collectItem, if_neg hseen, List.mem_append, List.mem_singleton, ih]

/-- The documents a transaction is compared with: those of its bucket and of the next ones. -/
theorem mem_getBucketCandidates {items : List Candidate} {txAmount : ℚ} {c : Candidate} :
    c ∈ e.getBucketCandidates txAmount (e.buildAmountIndex items) ↔
      txAmount ≠ 0 ∧ c ∈ items ∧ |c.amount| ≠ 0 ∧ e.Near txAmount |c.amount| := by
  unfold getBucketCandidates
  by_cases hzero : txAmount = 0
  · simp [hzero]
  · rw [if_neg hzero]
    let b := e.amountBucket txAmount
    let index := e.buildAmountIndex items
    have hmem : ∀ x : Filed, x ∈ index.bucket (b - 1) ++ index.bucket b ++ index.bucket (b + 1) ↔
        x ∈ items.zipIdx ∧ |x.1.amount| ≠ 0 ∧ e.Near txAmount |x.1.amount| := by
      intro x
      have hnear : e.Near txAmount |x.1.amount| ↔
          e.amountBucket |x.1.amount| = b - 1 ∨ e.amountBucket |x.1.amount| = b ∨
            e.amountBucket |x.1.amount| = b + 1 := by
        rw [Near, abs_le]
        omega
      rw [List.mem_append, List.mem_append, mem_bucket_buildAmountIndex, mem_bucket_buildAmountIndex,
        mem_bucket_buildAmountIndex, hnear]
      simp only [← and_or_left, or_assoc]
    have hplace : ∀ x ∈ index.bucket (b - 1) ++ index.bucket b ++ index.bucket (b + 1),
        ∀ y ∈ index.bucket (b - 1) ++ index.bucket b ++ index.bucket (b + 1), x.2 = y.2 → x = y := by
      intro x hx y hy hxy
      have hx := List.mem_zipIdx_iff_getElem?.mp ((hmem x).mp hx).1
      have hy := List.mem_zipIdx_iff_getElem?.mp ((hmem y).mp hy).1
      rw [hxy, hy] at hx
      exact Prod.ext (Option.some.inj hx).symm hxy
    show c ∈ List.map Prod.fst (List.foldl collectItem []
        (index.bucket (b - 1) ++ index.bucket b ++ index.bucket (b + 1))) ↔ _
    rw [List.mem_map]
    constructor
    · intro h
      obtain ⟨x, hx, rfl⟩ := h
      obtain ⟨hitem, hne, hnear⟩ := (hmem x).mp ((mem_foldl_collectItem hplace x).mp hx)
      exact ⟨hzero, List.fst_mem_of_mem_zipIdx hitem, hne, hnear⟩
    · intro h
      obtain ⟨-, hc, hne, hnear⟩ := h
      obtain ⟨i, hi⟩ := List.mem_iff_getElem?.mp hc
      have hitem : (c, i) ∈ items.zipIdx := List.mem_zipIdx_iff_getElem?.mpr hi
      exact ⟨(c, i), (mem_foldl_collectItem hplace _).mpr ((hmem _).mpr ⟨hitem, hne, hnear⟩), rfl⟩

/-! ### Buckets a fifth of the amount wide -/

section Fifth

variable (hexact : e.numbers = .exact) (hpct : e.config.bucketPct = 20 / 100)
include hexact hpct

/-- Small amounts have a bucket for every unit, all others are in one bucket. -/
theorem amountBucket_eq (amount : ℚ) : e.amountBucket amount = min ⌊amount⌋ 5 := by
  have hbucket : e.amountBucket amount = ⌊amount / max (amount * (20 / 100)) 1⌋ := by
    rw [amountBucket, hexact, hpct]
    rfl
  rw [hbucket]
  rcases le_total amount 5 with hle | hge
  · have hwidth : max (amount * (20 / 100)) 1 = 1 := max_eq_right (by linarith)
    have hfloor : ⌊amount⌋ ≤ 5 := by
      have := Int.floor_le_floor hle
      simpa using this
    rw [hwidth, div_one, min_eq_left hfloor]
  · have hwidth : max (amount * (20 / 100)) 1 = amount * (20 / 100) := max_eq_left (by linarith)
    have hfloor : 5 ≤ ⌊amount⌋ := Int.le_floor.mpr (by exact_mod_cast hge)
    have hquot : amount / (amount * (20 / 100)) = 5 := by
      have hne : amount ≠ 0 := by linarith
      field_simp
      norm_num
    rw [hwidth, hquot, min_eq_right hfloor]
    norm_num

/-- An amount is near every smaller one that makes up four fifths of it. -/
theorem near_of_le {amount amount' : ℚ} (hle : amount ≤ amount') (hclose : amount' - amount ≤ 20 / 100 * amount') :
    e.Near amount amount' := by
  have hfloor : ⌊amount⌋ ≤ ⌊amount'⌋ := Int.floor_le_floor hle
  have hstep : ⌊amount'⌋ ≤ ⌊amount⌋ + 1 ∨ 4 ≤ ⌊amount⌋ := by
    rcases le_total amount' 5 with hsmall | hlarge
    · refine Or.inl ?_
      rw [← Int.floor_add_one]
      exact Int.floor_le_floor (by linarith)
    · refine Or.inr (Int.le_floor.mpr ?_)
      push_cast
      linarith
  rw [Near, amountBucket_eq hexact hpct, amountBucket_eq hexact hpct, abs_le]
  omega

/-- Amounts that differ by at most a fifth of the larger one are near each other. -/
theorem near_of_close {amount amount' : ℚ} (hclose : |amount - amount'| ≤ 20 / 100 * max amount amount') :
    e.Near amount amount' := by
  rcases le_total amount amount' with hle | hle
  · rw [max_eq_right hle, abs_sub_comm, abs_of_nonneg (sub_nonneg.mpr hle)] at hclose
    exact near_of_le hexact hpct hle hclose
  · rw [max_eq_left hle, abs_of_nonneg (sub_nonneg.mpr hle)] at hclose
    have hnear := near_of_le hexact hpct hle hclose
    rw [Near, abs_sub_comm] at hnear
    exact hnear

end Fifth

end BulkMatchingEngine

end Pinnokio.Matching
