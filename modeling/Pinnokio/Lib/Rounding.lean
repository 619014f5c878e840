import Mathlib.Tactic.Linarith
import Mathlib.Tactic.NormNum
import Pinnokio.Lib.Numbers

/-!
# Arithmetic that rounds

A program computes with numbers of a machine: the result of an operation is the exact one, rounded to such a number.  A
literal is rounded as well, and so is the decimal that `round(x, n)` stands for.  Nothing here depends on the format;
what the results need of the rounding are the fields of `Rounding`.

* `exact` — the arithmetic without rounding;
* `round_mono`, `round_round` — `round(x, 3)` keeps the order, and a rounded number stays what it is;
* `lit_lt_lit_iff`, `round_lit` — literals with three decimals are told apart, and are not changed by rounding.
-/

namespace Pinnokio

open Numbers

/-- How a machine rounds.  Three is the number of decimals that scores are rounded to. -/
structure Rounding where
  rnd : ℚ → ℚ
  mono : Monotone rnd
  idem : ∀ x, rnd (rnd x) = rnd x
  neg : ∀ x, rnd (-x) = -rnd x
  one : rnd 1 = 1
  decimals : ∀ x, |x| ≤ 1 → roundTo 3 (rnd (roundTo 3 x)) = roundTo 3 x
  again : ∀ x, rnd (roundTo 3 (rnd (roundTo 3 x))) = rnd (roundTo 3 x)

namespace Rounding

variable (A : Rounding)

/-! ### Operations -/

/-- The number that a literal stands for. -/
def lit (x : ℚ) : ℚ := A.rnd x

/-- `x + y`. -/
def add (x y : ℚ) : ℚ := A.rnd (x + y)

/-- `x - y`. -/
def sub (x y : ℚ) : ℚ := A.rnd (x - y)

/-- `x * y`. -/
def mul (x y : ℚ) : ℚ := A.rnd (x * y)

/-- `x / y`. -/
def div (x y : ℚ) : ℚ := A.rnd (x / y)

/-- `round(x, n)`. -/
def round (n : ℕ) (x : ℚ) : ℚ := A.rnd (roundTo n x)

/-- `f"{x:.0%}"`. -/
def percent (x : ℚ) : String := toString (roundHalfEven (A.mul x 100)) ++ "%"

/-- The arithmetic without rounding. -/
def exact : Rounding where
  rnd x := x
  mono := monotone_id
  idem _ := rfl
  neg _ := rfl
  one := rfl
  decimals x _ := roundTo_roundTo 3 x
  again x := roundTo_roundTo 3 x

@[simp] theorem exact_lit (x : ℚ) : exact.lit x = x := rfl

@[simp] theorem exact_add (x y : ℚ) : exact.add x y = x + y := rfl

@[simp] theorem exact_sub (x y : ℚ) : exact.sub x y = x - y := rfl

@[simp] theorem exact_mul (x y : ℚ) : exact.mul x y = x * y := rfl

@[simp] theorem exact_div (x y : ℚ) : exact.div x y = x / y := rfl

@[simp] theorem exact_round (n : ℕ) (x : ℚ) : exact.round n x = roundTo n x := rfl

/-! ### Signs -/

@[simp] theorem rnd_zero : A.rnd 0 = 0 := by
  have h : A.rnd 0 = -A.rnd 0 := by
    rw [← A.neg, neg_zero]
  linarith

@[simp] theorem lit_zero : A.lit 0 = 0 := A.rnd_zero

@[simp] theorem lit_one : A.lit 1 = 1 := A.one

theorem rnd_nonneg {x : ℚ} (h : 0 ≤ x) : 0 ≤ A.rnd x := by
  rw [← A.rnd_zero]
  exact A.mono h

theorem lit_unit {x : ℚ} (hlo : 0 ≤ x) (hhi : x ≤ 1) : 0 ≤ A.lit x ∧ A.lit x ≤ 1 := by
  refine ⟨A.rnd_nonneg hlo, ?_⟩
  rw [← A.lit_one]
  exact A.mono hhi

theorem mul_symm (x y : ℚ) : A.mul x y = A.mul y x := by
  rw [mul, mul, mul_comm]

theorem abs_sub_symm (x y : ℚ) : |A.sub x y| = |A.sub y x| := by
  rw [sub, sub, ← neg_sub y x, A.neg, abs_neg]

theorem square_nonneg (x : ℚ) : 0 ≤ A.mul x x := A.rnd_nonneg (mul_self_nonneg x)

/-! ### Decimals -/

theorem round_mono (n : ℕ) : Monotone (A.round n) := fun _ _ h => A.mono (roundTo_mono n h)

/-- A rounded score is rounded to itself. -/
theorem round_round (x : ℚ) : A.round 3 (A.round 3 x) = A.round 3 x := A.again x

@[simp] theorem round_zero (n : ℕ) : A.round n 0 = 0 := by
  rw [round, roundTo_zero, rnd_zero]

theorem round_one : A.round 3 1 = 1 := by
  have hgrid : roundTo 3 1 = 1 := roundTo_of_grid (k := 1000) (by norm_num)
  rw [round, hgrid, A.one]

/-- A literal with three decimals is not changed by rounding. -/
theorem round_lit {x : ℚ} (h : roundTo 3 x = x) : A.round 3 (A.lit x) = A.lit x := by
  have hagain := A.again x
  rw [h] at hagain
  exact hagain

/-- Small literals with three decimals are told apart. -/
theorem lit_lt_lit_iff {x y : ℚ} (hx : roundTo 3 x = x) (hy : roundTo 3 y = y) (hx' : |x| ≤ 1) (hy' : |y| ≤ 1) :
    A.lit x < A.lit y ↔ x < y := by
  constructor
  · intro hlt
    by_contra hle
    exact absurd (A.mono (not_lt.mp hle)) (not_le.mpr hlt)
  · intro hlt
    refine lt_of_le_of_ne (A.mono hlt.le) fun heq => hlt.ne ?_
    have hxy : roundTo 3 (A.rnd (roundTo 3 x)) = roundTo 3 (A.rnd (roundTo 3 y)) := by
      rw [hx, hy]
      exact congrArg (roundTo 3) heq
    rwa [A.decimals x hx', A.decimals y hy', hx, hy] at hxy

theorem lit_pos {x : ℚ} (hx : roundTo 3 x = x) (hpos : 0 < x) (hle : x ≤ 1) : 0 < A.lit x := by
  have hlt := (A.lit_lt_lit_iff (roundTo_zero 3) hx (by norm_num) (abs_le.mpr ⟨by linarith, hle⟩)).mpr hpos
  rwa [A.lit_zero] at hlt

end Rounding

end Pinnokio
