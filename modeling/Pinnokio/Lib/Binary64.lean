import Mathlib.Algebra.Order.Field.Power
import Mathlib.Data.Int.Log
import Mathlib.Data.Rat.Floor
import Mathlib.Tactic.FieldSimp
import Mathlib.Tactic.Linarith
import Mathlib.Tactic.NormNum
import Mathlib.Tactic.Ring
import Pinnokio.Lib.Rounding

/-!
# Double precision

A number of double precision is an integer of at most 53 bits times a power of two that is not below 2 ^ -1074.
`nearest` rounds to such a number, ties to the even integer.  The exponents have no upper bound here: infinities are
left out, as are the sign of zero and what is not a number.

* `nearest_of_number`, `number_nearest` — the numbers of the format are those that are not changed;
* `nearest_mono` — rounding keeps the order, within a binade and from one to the next;
* `roundTo_nearest`, `nearest_roundTo_nearest` — three decimals of a small number are not lost, and rounding to three
  decimals twice is rounding once;
* `binary64` — **double precision is an arithmetic that rounds**.
-/

namespace Pinnokio.Binary64

open Numbers

/-! ### The nearest integer -/

theorem roundHalfEven_of_near {x : ℚ} {n : ℤ} (h : |x - n| < 1 / 2) : roundHalfEven x = n := by
  obtain ⟨hlo, hhi⟩ := abs_lt.mp h
  rcases le_or_gt (n : ℚ) x with hle | hlt
  · have hfloor : x.floor = n := by
      refine le_antisymm (Int.lt_add_one_iff.mp (Rat.floor_lt_iff.mpr ?_)) (Rat.le_floor_iff.mpr hle)
      push_cast
      linarith
    rw [roundHalfEven, hfloor]
    exact if_pos hhi
  · have hfloor : x.floor = n - 1 := by
      refine le_antisymm (Int.le_sub_one_of_lt (Rat.floor_lt_iff.mpr hlt)) (Rat.le_floor_iff.mpr ?_)
      push_cast
      linarith
    have hfraction : 1 / 2 < x - ((n - 1 : ℤ) : ℚ) := by
      push_cast
      linarith
    rw [roundHalfEven, hfloor]
    show (if x - ((n - 1 : ℤ) : ℚ) < 1 / 2 then n - 1 else _) = n
    rw [if_neg (not_lt.mpr hfraction.le), if_pos hfraction]
    exact Int.sub_add_cancel n 1

theorem abs_sub_roundHalfEven_le (x : ℚ) : |x - roundHalfEven x| ≤ 1 / 2 := by
  have hlo := Rat.floor_le x
  have hhi := Rat.lt_floor_add_one x
  push_cast at hhi
  dsimp only [roundHalfEven]
  rw [abs_le]
  split_ifs <;> constructor <;> push_cast <;> linarith

/-- Rounding is symmetric. -/
theorem roundHalfEven_neg (x : ℚ) : roundHalfEven (-x) = -roundHalfEven x := by
  have herror := abs_sub_roundHalfEven_le x
  rcases lt_or_eq_of_le herror with hnear | htie
  · refine roundHalfEven_of_near ?_
    push_cast
    rw [show -x - -(roundHalfEven x : ℚ) = -(x - roundHalfEven x) by ring, abs_neg]
    exact hnear
  · -- Halfway: both neighbours are as near, and the even one is taken on both sides.
    have hlo := Rat.floor_le x
    have hhi := Rat.lt_floor_add_one x
    push_cast at hhi
    have hhalf : x - x.floor = 1 / 2 := by
      by_contra hne
      rcases lt_or_gt_of_ne hne with hless | hmore
      · have hround : roundHalfEven x = x.floor := if_pos hless
        rw [hround, abs_of_nonneg (by linarith)] at htie
        exact hne htie
      · have hround : roundHalfEven x = x.floor + 1 := by
          dsimp only [roundHalfEven]
          rw [if_neg (not_lt.mpr hmore.le), if_pos hmore]
        rw [hround, abs_of_nonpos (by push_cast; linarith)] at htie
        push_cast at htie
        linarith
    have hfloor : (-x).floor = -x.floor - 1 := by
      refine le_antisymm (Int.le_of_lt_add_one (Rat.floor_lt_iff.mpr ?_)) (Rat.le_floor_iff.mpr ?_)
      · push_cast
        linarith
      · push_cast
        linarith
    have hhalf' : -x - ((-x.floor - 1 : ℤ) : ℚ) = 1 / 2 := by
      push_cast
      linarith
    dsimp only [roundHalfEven]
    rw [hfloor, hhalf, hhalf', if_neg (lt_irrefl _), if_neg (lt_irrefl _), if_neg (lt_irrefl _), if_neg (lt_irrefl _)]
    split_ifs <;> omega

theorem roundTo_neg (n : ℕ) (x : ℚ) : roundTo n (-x) = -roundTo n x := by
  rw [roundTo, neg_mul, roundHalfEven_neg]
  push_cast
  rw [neg_div]
  rfl

/-- What is near a number with three decimals is rounded to it. -/
theorem roundTo_of_near {x y : ℚ} (h : |y - roundTo 3 x| < 1 / 2000) : roundTo 3 y = roundTo 3 x := by
  have hnear : roundHalfEven (y * 10 ^ 3) = roundHalfEven (x * 10 ^ 3) := by
    refine roundHalfEven_of_near ?_
    have hscale : y * 10 ^ 3 - roundHalfEven (x * 10 ^ 3) = (y - roundTo 3 x) * 10 ^ 3 := by
      rw [roundTo, sub_mul, div_mul_cancel₀ _ (ten_pow_ne_zero 3)]
    rw [hscale, abs_mul, abs_of_pos (by norm_num : (0 : ℚ) < 10 ^ 3)]
    linarith
  rw [roundTo, hnear, roundTo]

theorem abs_sub_roundTo_le (x : ℚ) : |x - roundTo 3 x| ≤ 1 / 2000 := by
  have herror := abs_sub_roundHalfEven_le (x * 10 ^ 3)
  have hscale : x * 10 ^ 3 - roundHalfEven (x * 10 ^ 3) = (x - roundTo 3 x) * 10 ^ 3 := by
    rw [roundTo, sub_mul, div_mul_cancel₀ _ (ten_pow_ne_zero 3)]
  rw [hscale, abs_mul, abs_of_pos (by norm_num : (0 : ℚ) < 10 ^ 3)] at herror
  linarith

/-! ### The nearest number -/

/-- `2 ^ e`, as a quotient of natural numbers. -/
def twoPow (e : ℤ) : ℚ := if 0 ≤ e then (2 ^ e.toNat : ℕ) else 1 / (2 ^ (-e).toNat : ℕ)

/-- The exponent of the last bit of a number. -/
def lastBit (x : ℚ) : ℤ := max (Int.log 2 |x| - 52) (-1074)

/-- The integer that the last bit is counted in. -/
def significand (x : ℚ) : ℤ := roundHalfEven (x / twoPow (lastBit x))

/-- The nearest number of the format. -/
def nearest (x : ℚ) : ℚ := significand x * twoPow (lastBit x)

/-- The numbers of the format. -/
def Number (v : ℚ) : Prop := ∃ m e : ℤ, |m| ≤ 2 ^ 53 ∧ -1074 ≤ e ∧ v = m * twoPow e

theorem twoPow_eq (e : ℤ) : twoPow e = 2 ^ e := by
  rw [twoPow]
  split
  · next h =>
    obtain ⟨n, rfl⟩ := Int.eq_ofNat_of_zero_le h
    push_cast
    rw [Int.toNat_natCast, zpow_natCast]
  · next h =>
    obtain ⟨n, hn⟩ := Int.eq_ofNat_of_zero_le (neg_nonneg.mpr (not_le.mp h).le)
    have he : e = -(n : ℤ) := by omega
    subst he
    rw [neg_neg, Int.toNat_natCast, zpow_neg, zpow_natCast]
    push_cast
    exact one_div _

theorem twoPow_pos (e : ℤ) : 0 < twoPow e := by
  rw [twoPow_eq]
  exact zpow_pos two_pos e

theorem twoPow_add (e k : ℤ) : twoPow (e + k) = twoPow e * twoPow k := by
  rw [twoPow_eq, twoPow_eq, twoPow_eq, zpow_add₀ two_ne_zero]

theorem twoPow_natCast (n : ℕ) : twoPow n = 2 ^ n := by
  rw [twoPow_eq, zpow_natCast]

theorem twoPow_1 : twoPow 1 = 2 ^ 1 := twoPow_natCast 1

theorem twoPow_52 : twoPow 52 = 2 ^ 52 := twoPow_natCast 52

theorem twoPow_53 : twoPow 53 = 2 ^ 53 := twoPow_natCast 53

theorem twoPow_mono {e k : ℤ} (h : e ≤ k) : twoPow e ≤ twoPow k := by
  rw [twoPow_eq, twoPow_eq]
  exact zpow_le_zpow_right₀ one_le_two h

/-- A power of two that is not below one is an integer. -/
theorem exists_twoPow_eq {e : ℤ} (h : 0 ≤ e) : ∃ n : ℤ, twoPow e = n := by
  obtain ⟨n, rfl⟩ := Int.eq_ofNat_of_zero_le h
  exact ⟨2 ^ n, by rw [twoPow_natCast]; push_cast; rfl⟩

section Binade

variable {x y : ℚ}

theorem twoPow_log_le (h : x ≠ 0) : twoPow (Int.log 2 |x|) ≤ |x| := by
  rw [twoPow_eq]
  exact Int.zpow_log_le_self one_lt_two (abs_pos.mpr h)

theorem lt_twoPow_log (x : ℚ) : |x| < twoPow (Int.log 2 |x| + 1) := by
  rw [twoPow_eq]
  exact Int.lt_zpow_succ_log_self one_lt_two |x|

theorem log_eq_of_mem {e : ℤ} (hlo : twoPow e ≤ |x|) (hhi : |x| < twoPow (e + 1)) : Int.log 2 |x| = e := by
  have hpos : 0 < |x| := lt_of_lt_of_le (twoPow_pos e) hlo
  rw [twoPow_eq] at hlo hhi
  have hle : e ≤ Int.log 2 |x| := (Int.zpow_le_iff_le_log one_lt_two hpos).mp (by exact_mod_cast hlo)
  have hlt : Int.log 2 |x| < e + 1 := (Int.lt_zpow_iff_log_lt one_lt_two hpos).mp (by exact_mod_cast hhi)
  omega

theorem lastBit_ge (x : ℚ) : -1074 ≤ lastBit x := le_max_right _ _

/-- A number has at most 53 bits. -/
theorem abs_lt_twoPow_lastBit (x : ℚ) : |x| < twoPow (lastBit x + 53) := by
  refine lt_of_lt_of_le (lt_twoPow_log x) (twoPow_mono ?_)
  have hlog : Int.log 2 |x| - 52 ≤ lastBit x := le_max_left _ _
  omega

theorem abs_significand_le (x : ℚ) : |significand x| ≤ 2 ^ 53 := by
  have hpos := twoPow_pos (lastBit x)
  have hbound : |x / twoPow (lastBit x)| ≤ ((2 ^ 53 : ℤ) : ℚ) := by
    rw [abs_div, abs_of_pos hpos, div_le_iff₀ hpos]
    have hlt := abs_lt_twoPow_lastBit x
    rw [twoPow_add, twoPow_53, mul_comm] at hlt
    push_cast
    exact hlt.le
  obtain ⟨hlo, hhi⟩ := abs_le.mp hbound
  rw [abs_le]
  constructor
  · have hmono := roundHalfEven_mono hlo
    rwa [← Int.cast_neg, roundHalfEven_intCast] at hmono
  · have hmono := roundHalfEven_mono hhi
    rwa [roundHalfEven_intCast] at hmono

theorem number_nearest (x : ℚ) : Number (nearest x) :=
  ⟨significand x, lastBit x, abs_significand_le x, lastBit_ge x, rfl⟩

/-- An integer of any last bit that is not too low. -/
theorem nearest_of_multiple {m e : ℤ} (h : lastBit (m * twoPow e) ≤ e) : nearest (m * twoPow e) = m * twoPow e := by
  obtain ⟨n, hn⟩ := exists_twoPow_eq (sub_nonneg.mpr h)
  have hpos := twoPow_pos (lastBit (m * twoPow e))
  have hsplit : (m : ℚ) * twoPow e = ((m * n : ℤ) : ℚ) * twoPow (lastBit (m * twoPow e)) := by
    push_cast
    rw [← hn, mul_assoc, ← twoPow_add, sub_add_cancel]
  have hsignificand : significand (m * twoPow e) = m * n := by
    rw [significand]
    rw [show (m : ℚ) * twoPow e / twoPow (lastBit (m * twoPow e)) = ((m * n : ℤ) : ℚ) by
      rw [div_eq_iff hpos.ne']
      exact hsplit]
    exact roundHalfEven_intCast _
  rw [nearest, hsignificand]
  exact hsplit.symm

/-- Fewer bits than 53 are needed above a last bit that is not too low. -/
theorem lastBit_le {e : ℤ} (hx : x ≠ 0) (he : -1074 ≤ e) (h : |x| < twoPow (e + 53)) : lastBit x ≤ e := by
  rw [twoPow_eq] at h
  have hlog : Int.log 2 |x| < e + 53 := (Int.lt_zpow_iff_log_lt one_lt_two (abs_pos.mpr hx)).mp (by exact_mod_cast h)
  rw [lastBit, max_le_iff]
  exact ⟨by omega, he⟩

@[simp] theorem nearest_zero : nearest 0 = 0 := by
  rw [nearest, significand, zero_div, ← Int.cast_zero, roundHalfEven_intCast 0, Int.cast_zero, zero_mul]

/-- The numbers of the format are not changed. -/
theorem nearest_of_number (h : Number x) : nearest x = x := by
  obtain ⟨m, e, hm, he, rfl⟩ := h
  by_cases hzero : m = 0
  · subst hzero
    rw [Int.cast_zero, zero_mul, nearest_zero]
  · have hpos := twoPow_pos e
    have hne (n k : ℤ) (hn : n ≠ 0) : (n : ℚ) * twoPow k ≠ 0 := mul_ne_zero (Int.cast_ne_zero.mpr hn) (twoPow_pos k).ne'
    rcases lt_or_eq_of_le hm with hlt | heq
    · refine nearest_of_multiple (lastBit_le (hne m e hzero) he ?_)
      rw [abs_mul, abs_of_pos hpos, twoPow_add, mul_comm, ← Int.cast_abs]
      refine mul_lt_mul_of_pos_left ?_ hpos
      rw [twoPow_53]
      exact_mod_cast hlt
    · -- All bits and one more: a power of two, with a higher last bit.
      obtain ⟨k, rfl⟩ : ∃ k : ℤ, m = 2 * k := ⟨m / 2, by rcases abs_choice m with h | h <;> rw [h] at heq <;> omega⟩
      have hk : |k| = 2 ^ 52 := by
        rw [abs_mul, abs_two] at heq
        omega
      have hshift : ((2 * k : ℤ) : ℚ) * twoPow e = k * twoPow (e + 1) := by
        rw [twoPow_add, twoPow_1]
        push_cast
        ring
      rw [hshift]
      refine nearest_of_multiple (lastBit_le (hne k (e + 1) (by omega)) (by omega) ?_)
      rw [abs_mul, abs_of_pos (twoPow_pos (e + 1)), twoPow_add (e + 1), mul_comm, ← Int.cast_abs, hk]
      refine mul_lt_mul_of_pos_left ?_ (twoPow_pos (e + 1))
      rw [twoPow_53]
      norm_num

theorem nearest_neg (x : ℚ) : nearest (-x) = -nearest x := by
  have hbit : lastBit (-x) = lastBit x := by rw [lastBit, lastBit, abs_neg]
  rw [nearest, significand, hbit, neg_div, roundHalfEven_neg, Int.cast_neg, neg_mul]
  rfl

theorem nearest_nonneg (h : 0 ≤ x) : 0 ≤ nearest x := by
  have hsignificand : roundHalfEven ((0 : ℤ) : ℚ) ≤ significand x := by
    refine roundHalfEven_mono ?_
    rw [Int.cast_zero]
    exact div_nonneg h (twoPow_pos _).le
  rw [roundHalfEven_intCast] at hsignificand
  exact mul_nonneg (Int.cast_nonneg hsignificand) (twoPow_pos _).le

/-- Rounding keeps the order of two positive numbers: in one binade the integers are compared, and between two binades
lies a power of two. -/
theorem nearest_le_nearest (hx : 0 < x) (hxy : x ≤ y) : nearest x ≤ nearest y := by
  have hy : 0 < y := lt_of_lt_of_le hx hxy
  have hlog : Int.log 2 |x| ≤ Int.log 2 |y| := by
    rw [abs_of_pos hx, abs_of_pos hy]
    exact Int.log_mono_right hx hxy
  have hbit : lastBit x ≤ lastBit y := max_le_max_right _ (by omega)
  have hpos := twoPow_pos (lastBit y)
  rcases eq_or_lt_of_le hbit with heq | hlt
  · rw [nearest, nearest, significand, heq]
    refine mul_le_mul_of_nonneg_right (Int.cast_le.mpr (roundHalfEven_mono ?_)) hpos.le
    exact div_le_div_of_nonneg_right hxy hpos.le
  · have hlow := lastBit_ge x
    have hybit : lastBit y = Int.log 2 |y| - 52 := by
      have hdef : lastBit y = max (Int.log 2 |y| - 52) (-1074) := rfl
      omega
    have hbelow : nearest x ≤ twoPow (lastBit y + 52) := by
      have hsignificand := (abs_le.mp (abs_significand_le x)).2
      calc nearest x ≤ ((2 ^ 53 : ℤ) : ℚ) * twoPow (lastBit x) :=
            mul_le_mul_of_nonneg_right (Int.cast_le.mpr hsignificand) (twoPow_pos _).le
        _ = twoPow (lastBit x + 53) := by
            rw [twoPow_add, twoPow_53, mul_comm]
            push_cast
            rfl
        _ ≤ twoPow (lastBit y + 52) := twoPow_mono (by omega)
    have habove : twoPow (lastBit y + 52) ≤ nearest y := by
      have hfull : ((2 ^ 52 : ℤ) : ℚ) ≤ y / twoPow (lastBit y) := by
        rw [le_div_iff₀ hpos]
        have hpower := twoPow_log_le hy.ne'
        rw [abs_of_pos hy, show Int.log 2 y = 52 + lastBit y by rw [hybit, abs_of_pos hy]; omega, twoPow_add,
          twoPow_52] at hpower
        push_cast
        exact hpower
      have hsignificand := roundHalfEven_mono hfull
      rw [roundHalfEven_intCast] at hsignificand
      rw [twoPow_add, twoPow_52, mul_comm]
      refine mul_le_mul_of_nonneg_right ?_ hpos.le
      exact_mod_cast hsignificand
    exact hbelow.trans habove

/-- **Rounding keeps the order.** -/
theorem nearest_mono : Monotone nearest := by
  intro x y hxy
  rcases lt_trichotomy x 0 with hx | rfl | hx
  · rcases lt_or_ge y 0 with hy | hy
    · have hneg := nearest_le_nearest (neg_pos.mpr hy) (neg_le_neg hxy)
      rw [nearest_neg, nearest_neg] at hneg
      exact neg_le_neg_iff.mp hneg
    · have hneg := nearest_nonneg (neg_pos.mpr hx).le
      rw [nearest_neg] at hneg
      exact (neg_nonneg.mp hneg).trans (nearest_nonneg hy)
  · rw [nearest_zero]
    exact nearest_nonneg hxy
  · exact nearest_le_nearest hx hxy

/-! ### Three decimals -/

/-- The error is at most half of the last bit. -/
theorem abs_sub_nearest_le (x : ℚ) : |x - nearest x| ≤ twoPow (lastBit x) / 2 := by
  have hpos := twoPow_pos (lastBit x)
  have herror := abs_sub_roundHalfEven_le (x / twoPow (lastBit x))
  have hscale : x - nearest x = (x / twoPow (lastBit x) - significand x) * twoPow (lastBit x) := by
    rw [sub_mul, div_mul_cancel₀ _ hpos.ne', nearest]
  rw [hscale, abs_mul, abs_of_pos hpos]
  have hmul := mul_le_mul_of_nonneg_right herror hpos.le
  rw [significand]
  linarith

/-- A last bit that is worth less than a thousandth does not touch the third decimal. -/
theorem roundTo_nearest_of_lastBit (h : lastBit (roundTo 3 x) ≤ -10) :
    roundTo 3 (nearest (roundTo 3 x)) = roundTo 3 x := by
  refine roundTo_of_near ?_
  rw [abs_sub_comm]
  refine lt_of_le_of_lt (abs_sub_nearest_le _) ?_
  have hsmall : twoPow (lastBit (roundTo 3 x)) ≤ twoPow (-10) := twoPow_mono h
  have hvalue : twoPow (-10) = 1 / 1024 := by decide +kernel
  rw [hvalue] at hsmall
  linarith

theorem roundTo_nearest (h : |x| ≤ 1) : roundTo 3 (nearest (roundTo 3 x)) = roundTo 3 x := by
  apply roundTo_nearest_of_lastBit
  by_cases hzero : roundTo 3 x = 0
  · rw [hzero]
    decide +kernel
  · have hone : roundTo 3 1 = 1 := roundTo_of_grid (k := 1000) (by norm_num)
    have hbound : |roundTo 3 x| ≤ 1 := by
      obtain ⟨hlo, hhi⟩ := abs_le.mp h
      have hlo := roundTo_mono 3 hlo
      have hhi := roundTo_mono 3 hhi
      rw [roundTo_neg, hone] at hlo
      rw [hone] at hhi
      exact abs_le.mpr ⟨hlo, hhi⟩
    refine lastBit_le hzero (by omega) (lt_of_le_of_lt hbound ?_)
    decide +kernel

/-- What is near a number inside a binade of a high last bit is rounded to it. -/
theorem nearest_of_near {m e : ℤ} (hlo : 2 ^ 52 < |m|) (hhi : |m| < 2 ^ 53) (he : -9 ≤ e)
    (h : |x - m * twoPow e| ≤ 1 / 2000) : nearest x = m * twoPow e := by
  have hpos := twoPow_pos e
  have hbit : 1 / 512 ≤ twoPow e := by
    have hvalue : twoPow (-9) = 1 / 512 := by decide +kernel
    rw [← hvalue]
    exact twoPow_mono he
  have habs : |(m : ℚ) * twoPow e| = |(m : ℚ)| * twoPow e := by
    rw [abs_mul, abs_of_pos hpos]
  have hdiff := abs_le.mp ((abs_abs_sub_abs_le_abs_sub x (m * twoPow e)).trans h)
  rw [habs] at hdiff
  have hlo' : ((2 ^ 52 + 1 : ℤ) : ℚ) * twoPow e ≤ |m| * twoPow e :=
    mul_le_mul_of_nonneg_right (by exact_mod_cast hlo) hpos.le
  have hhi' : |(m : ℚ)| * twoPow e ≤ ((2 ^ 53 - 1 : ℤ) : ℚ) * twoPow e :=
    mul_le_mul_of_nonneg_right (by exact_mod_cast Int.le_sub_one_of_lt hhi) hpos.le
  push_cast at hlo' hhi'
  have hlog : Int.log 2 |x| = e + 52 := by
    refine log_eq_of_mem ?_ ?_
    · rw [twoPow_add, twoPow_52]
      linarith
    · rw [show e + 52 + 1 = e + 53 by ring, twoPow_add, twoPow_53]
      linarith
  have hlast : lastBit x = e := by
    rw [lastBit, hlog]
    omega
  have hsignificand : significand x = m := by
    rw [significand, hlast]
    refine roundHalfEven_of_near ?_
    have hscale : x / twoPow e - m = (x - m * twoPow e) / twoPow e := by
      rw [sub_div, mul_div_cancel_right₀ _ hpos.ne']
    rw [hscale, abs_div, abs_of_pos hpos, div_lt_iff₀ hpos]
    linarith
  rw [nearest, hsignificand, hlast]

/-- An integer is not changed by rounding to three decimals, and what `round(x, 3)` makes of another number of a high
last bit is near it. -/
theorem nearest_roundTo_of_lastBit (h : -9 ≤ lastBit x) : nearest (roundTo 3 (nearest x)) = nearest x := by
  have hpos := twoPow_pos (lastBit x)
  have hx : x ≠ 0 := by
    rintro rfl
    exact absurd h (by decide +kernel)
  have hfull : 2 ^ 52 ≤ |significand x| := by
    have hdef : lastBit x = max (Int.log 2 |x| - 52) (-1074) := rfl
    have hlog : Int.log 2 |x| = lastBit x + 52 := by omega
    have hpower := twoPow_log_le hx
    rw [hlog, twoPow_add, twoPow_52, mul_comm] at hpower
    have hquotient : ((2 ^ 52 : ℤ) : ℚ) ≤ |x| / twoPow (lastBit x) := by
      rw [le_div_iff₀ hpos]
      push_cast
      exact hpower
    have hround := roundHalfEven_mono hquotient
    rw [roundHalfEven_intCast] at hround
    rcases abs_choice x with habs | habs
    · rw [habs] at hround
      exact hround.trans (le_abs_self _)
    · rw [habs, neg_div, roundHalfEven_neg] at hround
      exact hround.trans (neg_le_abs _)
  have hhigh := abs_significand_le x
  by_cases hinside : 2 ^ 52 < |significand x| ∧ |significand x| < 2 ^ 53
  · refine nearest_of_near hinside.1 hinside.2 h ?_
    rw [abs_sub_comm]
    exact abs_sub_roundTo_le (nearest x)
  · -- A power of two, and a large one: an integer.
    obtain ⟨k, hk⟩ : ∃ k : ℤ, significand x = k * 2 ^ 52 := by
      refine ⟨significand x / 2 ^ 52, ?_⟩
      rcases abs_choice (significand x) with habs | habs <;> rw [habs] at hinside hfull hhigh <;> omega
    obtain ⟨n, hn⟩ := exists_twoPow_eq (show 0 ≤ lastBit x + 52 by omega)
    have hinteger : nearest x = ((k * n : ℤ) : ℚ) := by
      rw [nearest, hk]
      push_cast
      rw [← hn, twoPow_add, twoPow_52]
      ring
    have hgrid : roundTo 3 (nearest x) = nearest x := by
      refine roundTo_of_grid (k := k * n * 1000) ?_
      rw [hinteger]
      push_cast
      norm_num
    rw [hgrid]
    exact nearest_of_number (number_nearest x)

/-- **Rounding to three decimals twice is rounding once.** -/
theorem nearest_roundTo_nearest (x : ℚ) :
    nearest (roundTo 3 (nearest (roundTo 3 x))) = nearest (roundTo 3 x) := by
  rcases le_or_gt (lastBit (roundTo 3 x)) (-10) with hlow | hhigh
  · rw [roundTo_nearest_of_lastBit hlow]
  · exact nearest_roundTo_of_lastBit (by omega)

end Binade

/-- **Double precision.** -/
def binary64 : Rounding where
  rnd := nearest
  mono := nearest_mono
  idem x := nearest_of_number (number_nearest x)
  neg := nearest_neg
  one := nearest_of_number ⟨1, 0, by decide, by decide, by decide +kernel⟩
  decimals _ h := roundTo_nearest h
  again := nearest_roundTo_nearest

example : nearest (1 / 10) = 3602879701896397 / 2 ^ 55 := by decide +kernel

end Pinnokio.Binary64
