import Mathlib.Algebra.Order.Field.Basic
import Mathlib.Algebra.Order.Field.Rat
import Mathlib.Tactic.Common

/-!
# Similarity of two sequences

The ratio of `difflib.SequenceMatcher` without a junk function: twice the number of elements in matching blocks,
divided by the total length.  The blocks are found by taking the longest common contiguous run and repeating the
search to its left and to its right.  In a second sequence of at least 200 elements, elements that make up more
than about one percent of it do not start a run; they may extend one.

* `fits_findLongestMatch` — the longest match lies within both sequences;
* `ratio_le_one` — **the ratio is at most one**.
-/

namespace Pinnokio.SequenceMatcher

variable {α : Type*} [DecidableEq α]

/-- A run: its start in both sequences and its length. -/
structure Block where
  i : ℕ
  j : ℕ
  size : ℕ
  deriving DecidableEq

/-- Elements of the second sequence that are too frequent to start a run. -/
def popular (b : List α) (x : α) : Bool := decide (200 ≤ b.length) && decide (b.length / 100 + 1 < b.count x)

/-- For every position of `b`, the length of the run that ends there and at `x`. -/
def nextRow (pop : α → Bool) (x : α) (b : List α) (row : List ℕ) : List ℕ :=
  List.zipWith (fun y n => if x = y ∧ pop y = false then n + 1 else 0) b (0 :: row)

/-- Look for a longer run among those that end at position `i` of the first sequence; `j` is the position of the
head of the row. -/
def bestInRow (i : ℕ) (best : Block) : ℕ → List ℕ → Block
  | _, [] => best
  | j, n :: row => bestInRow i (if best.size < n then ⟨i + 1 - n, j + 1 - n, n⟩ else best) (j + 1) row

/-- The first of the longest runs. -/
def longestRun (pop : α → Bool) (b : List α) (best : Block) : ℕ → List α → List ℕ → Block
  | _, [], _ => best
  | i, x :: a, row =>
      let row := nextRow pop x b row
      longestRun pop b (bestInRow i best 0 row) (i + 1) a row

/-- The length of the common beginning. -/
def commonLength : List α → List α → ℕ
  | x :: a, y :: b => if x = y then commonLength a b + 1 else 0
  | _, _ => 0

/-- `find_longest_match`: the first of the longest runs, extended on both sides. -/
def findLongestMatch (pop : α → Bool) (a b : List α) : Block :=
  let best := longestRun pop b ⟨0, 0, 0⟩ 0 a (b.map fun _ => 0)
  let before := commonLength (a.take best.i).reverse (b.take best.j).reverse
  let after := commonLength (a.drop (best.i + best.size)) (b.drop (best.j + best.size))
  ⟨best.i - before, best.j - before, before + best.size + after⟩

/-- The number of elements in matching blocks; `fuel` bounds the depth of the search. -/
def matchTotal (pop : α → Bool) : ℕ → List α → List α → ℕ
  | 0, _, _ => 0
  | fuel + 1, a, b =>
      let m := findLongestMatch pop a b
      if m.size = 0 then 0
      else
        matchTotal pop fuel (a.take m.i) (b.take m.j) + m.size +
          matchTotal pop fuel (a.drop (m.i + m.size)) (b.drop (m.j + m.size))

/-- `SequenceMatcher(None, a, b).ratio()`. -/
def ratio (a b : List α) : ℚ :=
  if a.length + b.length = 0 then 1
  else 2 * matchTotal (popular b) (a.length + 1) a b / (a.length + b.length : ℕ)

example : ratio "abcd".toList "bcde".toList = 3 / 4 := by decide +kernel

example : ratio "private volatile thread".toList "private thread".toList = 28 / 37 := by decide +kernel

/-! ### Bounds -/

section Bounds

variable {pop : α → Bool} {a b : List α}

/-- A block lies within two sequences of the given lengths. -/
structure Block.Fits (m : Block) (n k : ℕ) : Prop where
  left : m.i + m.size ≤ n
  right : m.j + m.size ≤ k

/-- The runs that end at a row of the table: none is longer than its column, or than the rows so far. -/
def RowBound (i : ℕ) (row : List ℕ) : Prop := ∀ (j n : ℕ), row[j]? = some n → n ≤ j + 1 ∧ n ≤ i

theorem rowBound_nextRow {i : ℕ} {row : List ℕ} (h : RowBound i row) (x : α) (b : List α) :
    RowBound (i + 1) (nextRow pop x b row) := by
  intro j n hn
  obtain ⟨y, m, -, hm, rfl⟩ := List.getElem?_zipWith_eq_some.mp hn
  have hbound : m ≤ j ∧ m ≤ i := by
    cases j with
    | zero =>
        cases hm
        exact ⟨Nat.le_refl _, Nat.zero_le _⟩
    | succ j => exact h j m hm
  split <;> omega

theorem fits_bestInRow {i n k : ℕ} (hi : i < n) {best : Block} (hbest : best.Fits n k) {row : List ℕ} {j : ℕ}
    (hrow : ∀ (l m : ℕ), row[l]? = some m → m ≤ j + l + 1 ∧ m ≤ i + 1) (hk : j + row.length ≤ k) :
    (bestInRow i best j row).Fits n k := by
  induction row generalizing best j with
  | nil => exact hbest
  | cons m row ih =>
      rw [List.length_cons] at hk
      have hm : m ≤ j + 0 + 1 ∧ m ≤ i + 1 := hrow 0 m rfl
      refine ih ?_ (fun l m' hm' => ?_) (by omega)
      · split
        · exact ⟨by dsimp only; omega, by dsimp only; omega⟩
        · exact hbest
      · have hshift : m' ≤ j + (l + 1) + 1 ∧ m' ≤ i + 1 := hrow (l + 1) m' hm'
        omega

theorem fits_longestRun {i n : ℕ} {best : Block} (hbest : best.Fits n b.length) {row : List ℕ} (hrow : RowBound i row)
    (hi : i + a.length ≤ n) : (longestRun pop b best i a row).Fits n b.length := by
  induction a generalizing best i row with
  | nil => exact hbest
  | cons x a ih =>
      rw [List.length_cons] at hi
      have hnext : RowBound (i + 1) (nextRow pop x b row) := rowBound_nextRow hrow x b
      refine ih (fits_bestInRow (by omega) hbest (fun l m hm => ?_) ?_) hnext (by omega)
      · have hbound := hnext l m hm
        omega
      · rw [nextRow, List.length_zipWith]
        omega

theorem commonLength_le (a b : List α) : commonLength a b ≤ a.length ∧ commonLength a b ≤ b.length := by
  induction a generalizing b with
  | nil => exact ⟨Nat.zero_le _, Nat.zero_le _⟩
  | cons x a ih =>
      cases b with
      | nil => exact ⟨Nat.zero_le _, Nat.zero_le _⟩
      | cons y b =>
          rw [commonLength, List.length_cons, List.length_cons]
          have hrest := ih b
          split <;> omega

/-- The longest match lies within both sequences. -/
theorem fits_findLongestMatch (pop : α → Bool) (a b : List α) :
    (findLongestMatch pop a b).Fits a.length b.length := by
  have hzero : RowBound 0 (b.map fun _ => 0) := by
    intro j n hn
    rw [List.getElem?_map] at hn
    obtain ⟨y, -, rfl⟩ := Option.map_eq_some_iff.mp hn
    exact ⟨Nat.zero_le _, Nat.le_refl _⟩
  have hbest : (longestRun pop b ⟨0, 0, 0⟩ 0 a (b.map fun _ => 0)).Fits a.length b.length :=
    fits_longestRun ⟨Nat.zero_le _, Nat.zero_le _⟩ hzero (by omega)
  unfold findLongestMatch
  dsimp only
  have hbefore := commonLength_le (a.take (longestRun pop b ⟨0, 0, 0⟩ 0 a (b.map fun _ => 0)).i).reverse
    (b.take (longestRun pop b ⟨0, 0, 0⟩ 0 a (b.map fun _ => 0)).j).reverse
  have hafter := commonLength_le
    (a.drop ((longestRun pop b ⟨0, 0, 0⟩ 0 a (b.map fun _ => 0)).i +
      (longestRun pop b ⟨0, 0, 0⟩ 0 a (b.map fun _ => 0)).size))
    (b.drop ((longestRun pop b ⟨0, 0, 0⟩ 0 a (b.map fun _ => 0)).j +
      (longestRun pop b ⟨0, 0, 0⟩ 0 a (b.map fun _ => 0)).size))
  rw [List.length_reverse, List.length_reverse, List.length_take, List.length_take] at hbefore
  rw [List.length_drop, List.length_drop] at hafter
  have hleft := hbest.left
  have hright := hbest.right
  constructor
  · dsimp only
    omega
  · dsimp only
    omega

/-- No more elements match than there are. -/
theorem matchTotal_le (pop : α → Bool) (fuel : ℕ) (a b : List α) :
    matchTotal pop fuel a b ≤ a.length ∧ matchTotal pop fuel a b ≤ b.length := by
  induction fuel generalizing a b with
  | zero => exact ⟨Nat.zero_le _, Nat.zero_le _⟩
  | succ fuel ih =>
      rw [matchTotal]
      split
      · exact ⟨Nat.zero_le _, Nat.zero_le _⟩
      · have hfits := fits_findLongestMatch pop a b
        have hleft := hfits.left
        have hright := hfits.right
        have hbefore := ih (a.take (findLongestMatch pop a b).i) (b.take (findLongestMatch pop a b).j)
        have hafter := ih (a.drop ((findLongestMatch pop a b).i + (findLongestMatch pop a b).size))
          (b.drop ((findLongestMatch pop a b).j + (findLongestMatch pop a b).size))
        rw [List.length_take, List.length_take] at hbefore
        rw [List.length_drop, List.length_drop] at hafter
        omega

/-- **The ratio is at most one.** -/
theorem ratio_le_one (a b : List α) : ratio a b ≤ 1 := by
  unfold ratio
  split
  · exact le_refl _
  · next hlength =>
    have htotal := matchTotal_le (popular b) (a.length + 1) a b
    have hpos : (0 : ℚ) < (a.length + b.length : ℕ) := Nat.cast_pos.mpr (Nat.pos_of_ne_zero hlength)
    rw [div_le_one hpos]
    have hle : 2 * matchTotal (popular b) (a.length + 1) a b ≤ a.length + b.length := by omega
    exact_mod_cast hle

end Bounds

end Pinnokio.SequenceMatcher
