import Mathlib.Algebra.GroupWithZero.Nat
import Mathlib.Algebra.Order.Field.Basic
import Mathlib.Algebra.Order.Field.Rat
import Mathlib.Algebra.Order.Ring.Cast
import Pinnokio.Lib.Text

/-!
# Numbers of a scripting language

`round(x, n)` on exact rationals (ties go to the even neighbour), `int(s)` on texts, and the calendar behind
`datetime.strptime` for numeric formats: a date is its ordinal, the number of days since the first of January of
the year 1.  `isoDay` writes a day counted from 1970.

* `roundTo_mono`, `roundTo_roundTo` — rounding keeps the order, and a rounded number stays what it is.
-/

namespace Pinnokio.Numbers

open Pinnokio.Text

/-! ### Rounding -/

/-- The nearest integer, the even one of two. -/
def roundHalfEven (x : ℚ) : ℤ :=
  let f := x.floor
  if x - f < 1 / 2 then f
  else if 1 / 2 < x - f then f + 1
  else if f % 2 = 0 then f
  else f + 1

/-- `round(x, n)`. -/
def roundTo (n : ℕ) (x : ℚ) : ℚ := roundHalfEven (x * 10 ^ n) / 10 ^ n

theorem floor_le_roundHalfEven (x : ℚ) : x.floor ≤ roundHalfEven x := by
  dsimp only [roundHalfEven]
  split
  · exact Int.le_refl _
  · split
    · omega
    · split <;> omega

theorem roundHalfEven_le (x : ℚ) : roundHalfEven x ≤ x.floor + 1 := by
  dsimp only [roundHalfEven]
  split
  · omega
  · split
    · exact Int.le_refl _
    · split <;> omega

theorem roundHalfEven_intCast (n : ℤ) : roundHalfEven n = n := by
  have hzero : (n : ℚ) - ((n : ℚ).floor : ℤ) = 0 := by rw [Rat.floor_intCast, sub_self]
  rw [roundHalfEven, if_pos (by rw [hzero]; decide +kernel), Rat.floor_intCast]

/-- Rounding keeps the order: two numbers with the same integer part are compared by their fractions. -/
theorem roundHalfEven_mono {x y : ℚ} (hxy : x ≤ y) : roundHalfEven x ≤ roundHalfEven y := by
  rcases lt_or_eq_of_le (Rat.floor_monotone hxy) with hlt | heq
  · have hx := roundHalfEven_le x
    have hy := floor_le_roundHalfEven y
    omega
  · have hfraction : x - x.floor ≤ y - x.floor := sub_le_sub_right hxy _
    dsimp only [roundHalfEven]
    rw [← heq]
    by_cases hx : x - x.floor < 1 / 2
    · rw [if_pos hx]
      split
      · exact Int.le_refl _
      · split
        · omega
        · split <;> omega
    · have hy : ¬y - x.floor < 1 / 2 := fun hy => hx (lt_of_le_of_lt hfraction hy)
      rw [if_neg hx, if_neg hy]
      by_cases hx' : 1 / 2 < x - x.floor
      · rw [if_pos hx', if_pos (lt_of_lt_of_le hx' hfraction)]
      · rw [if_neg hx']
        split
        · split <;> omega
        · split <;> exact Int.le_refl _

theorem roundTo_mono (n : ℕ) : Monotone (roundTo n) := by
  intro x y hxy
  have hpos : (0 : ℚ) < 10 ^ n := pow_pos (by decide +kernel) n
  have hround : roundHalfEven (x * 10 ^ n) ≤ roundHalfEven (y * 10 ^ n) :=
    roundHalfEven_mono (mul_le_mul_of_nonneg_right hxy hpos.le)
  exact div_le_div_of_nonneg_right (Int.cast_le.mpr hround) hpos.le

theorem ten_pow_ne_zero (n : ℕ) : (10 : ℚ) ^ n ≠ 0 := pow_ne_zero n (by decide +kernel)

/-- A number of `n` decimals is rounded to itself. -/
theorem roundTo_of_grid {n : ℕ} {x : ℚ} {k : ℤ} (h : x * 10 ^ n = k) : roundTo n x = x := by
  rw [roundTo, h, roundHalfEven_intCast, ← h, mul_div_cancel_right₀ x (ten_pow_ne_zero n)]

@[simp] theorem roundTo_zero (n : ℕ) : roundTo n 0 = 0 := roundTo_of_grid (k := 0) (by rw [zero_mul, Int.cast_zero])

/-- A rounded number is rounded to itself. -/
theorem roundTo_roundTo (n : ℕ) (x : ℚ) : roundTo n (roundTo n x) = roundTo n x :=
  roundTo_of_grid (div_mul_cancel₀ _ (ten_pow_ne_zero n))

example : roundTo 3 (8745 / 10000) = 874 / 1000 ∧ roundTo 3 (8755 / 10000) = 876 / 1000 := by
  decide +kernel

/-! ### Integers -/

/-- The value of a decimal digit. -/
def digit? (c : Char) : Option ℕ := if '0' ≤ c ∧ c ≤ '9' then some (c.toNat - '0'.toNat) else none

/-- Digits with single underscores between them; `acc` is the number read so far. -/
def digits? (acc : ℕ) : List Char → Option ℕ
  | [] => some acc
  | '_' :: c :: cs =>
      match digit? c with
      | none => none
      | some d => digits? (acc * 10 + d) cs
  | c :: cs =>
      match digit? c with
      | none => none
      | some d => digits? (acc * 10 + d) cs

/-- An unsigned number. -/
def natural? : List Char → Option ℕ
  | [] => none
  | c :: cs =>
      match digit? c with
      | none => none
      | some d => digits? d cs

/-- `int(s)`; `none` is the `ValueError`. -/
def int? (s : String) : Option ℤ :=
  match (strip s).toList with
  | '-' :: cs => (natural? cs).map fun n => -(n : ℤ)
  | '+' :: cs => (natural? cs).map fun n => (n : ℤ)
  | cs => (natural? cs).map fun n => (n : ℤ)

example : int? " -1_20 " = some (-120) ∧ int? "FAC/7" = none := by decide

theorem digit?_of_isDigit {c : Char} (h : c.isDigit = true) : digit? c = some (c.toNat - '0'.toNat) := by
  rw [Char.isDigit, Bool.and_eq_true, decide_eq_true_iff, decide_eq_true_iff] at h
  exact if_pos h

theorem digits?_of_isDigit {cs : List Char} (h : ∀ c ∈ cs, c.isDigit = true) (acc : ℕ) :
    digits? acc cs = some (Nat.ofDigitChars 10 cs acc) := by
  induction cs generalizing acc with
  | nil => rw [digits?, Nat.ofDigitChars_nil]
  | cons c cs ih =>
      have hc := h c List.mem_cons_self
      have hne : ∀ c' cs', c = '_' → cs = c' :: cs' → False := by
        rintro c' cs' rfl -
        exact absurd hc (by decide)
      rw [digits?, digit?_of_isDigit hc, Nat.ofDigitChars_cons, Nat.mul_comm]
      · exact ih (fun c' hc' => h c' (List.mem_cons_of_mem _ hc')) _
      · exact hne

theorem toList_toString (n : ℕ) : (toString n).toList = Nat.toDigits 10 n := by
  rw [Nat.toString_eq_repr, Nat.toList_repr]

theorem isDigit_of_mem_toString {n : ℕ} {c : Char} (h : c ∈ (toString n).toList) : c.isDigit = true := by
  rw [toList_toString] at h
  exact Nat.isDigit_of_mem_toDigits (by decide) (by decide) h

/-- A digit is no blank. -/
theorem isSpace_of_isDigit {c : Char} (h : c.isDigit = true) : isSpace c = false := by
  rw [Char.isDigit, Bool.and_eq_true, decide_eq_true_iff, decide_eq_true_iff] at h
  have hlow : 48 ≤ c.toNat := h.1
  have hhigh : c.toNat ≤ 57 := h.2
  simp [isSpace]
  omega

theorem natural?_toDigits (n : ℕ) : natural? (Nat.toDigits 10 n) = some n := by
  have hdigits : ∀ c ∈ Nat.toDigits 10 n, c.isDigit = true :=
    fun c hc => Nat.isDigit_of_mem_toDigits (by decide) (by decide) hc
  have hvalue : Nat.ofDigitChars 10 (Nat.toDigits 10 n) 0 = n := Nat.ofDigitChars_ten_toDigits
  cases hlist : Nat.toDigits 10 n with
  | nil => exact absurd hlist Nat.toDigits_ne_nil
  | cons c cs =>
      rw [hlist] at hdigits hvalue
      rw [natural?, digit?_of_isDigit (hdigits c List.mem_cons_self)]
      dsimp only
      rw [digits?_of_isDigit fun c' hc' => hdigits c' (List.mem_cons_of_mem _ hc')]
      rw [Nat.ofDigitChars_cons, Nat.mul_zero, Nat.zero_add] at hvalue
      rw [hvalue]

/-- A number that was written is read. -/
theorem int?_toString (n : ℕ) : int? (toString n) = some (n : ℤ) := by
  have hstrip : strip (toString n) = toString n :=
    strip_of_no_space fun c hc => isSpace_of_isDigit (isDigit_of_mem_toString hc)
  have hsign : ∀ c ∈ Nat.toDigits 10 n, c.isDigit = true :=
    fun c hc => Nat.isDigit_of_mem_toDigits (by decide) (by decide) hc
  rw [int?, hstrip, toList_toString]
  split
  · next heq => exact absurd (hsign '-' (heq ▸ List.mem_cons_self)) (by decide)
  · next heq => exact absurd (hsign '+' (heq ▸ List.mem_cons_self)) (by decide)
  · rw [natural?_toDigits]
    rfl

/-- Also with its sign. -/
theorem int?_toString_int (n : ℤ) : int? (toString n) = some n := by
  cases n with
  | ofNat n => exact int?_toString n
  | negSucc n =>
      have htext : toString (Int.negSucc n) = "-" ++ toString (n + 1) := rfl
      have hlist : ("-" ++ toString (n + 1)).toList = '-' :: Nat.toDigits 10 (n + 1) := by
        rw [String.toList_append, toList_toString]
        rfl
      have hstrip : strip ("-" ++ toString (n + 1)) = "-" ++ toString (n + 1) := by
        refine strip_of_no_space fun c hc => ?_
        rw [hlist, ← toList_toString] at hc
        rcases List.mem_cons.mp hc with rfl | hc
        · rfl
        · exact isSpace_of_isDigit (isDigit_of_mem_toString hc)
      rw [htext, int?, hstrip, hlist]
      simp only [natural?_toDigits]
      rfl

/-- The text of an integer says which one it is. -/
theorem toString_int_injective : Function.Injective (toString : ℤ → String) := by
  intro a b h
  have hread : int? (toString a) = some b := h ▸ int?_toString_int b
  exact Option.some.inj ((int?_toString_int a).symm.trans hread)

/-! ### Dates -/

/-- A leap year. -/
def isLeap (y : ℕ) : Bool := y % 4 == 0 && y % 100 != 0 || y % 400 == 0

/-- The number of days of a month. -/
def daysInMonth (y m : ℕ) : ℕ :=
  if m = 2 then if isLeap y then 29 else 28
  else if m = 4 ∨ m = 6 ∨ m = 9 ∨ m = 11 then 30
  else 31

/-- `date(y, m, d).toordinal()`; `none` is the `ValueError` of a day that does not exist. -/
def ordinal? (y m d : ℕ) : Option ℕ :=
  if y = 0 ∨ m = 0 ∨ 12 < m ∨ d = 0 ∨ daysInMonth y m < d then none
  else
    some ((y - 1) * 365 + (y - 1) / 4 - (y - 1) / 100 + (y - 1) / 400 +
      ((List.range (m - 1)).map fun k => daysInMonth y (k + 1)).sum + d)

/-- Digits without anything between them; `acc` is the number read so far. -/
def plainDigits? (acc : ℕ) : List Char → Option ℕ
  | [] => some acc
  | c :: cs =>
      match digit? c with
      | none => none
      | some d => plainDigits? (acc * 10 + d) cs

/-- `%Y`: four digits. -/
def year? : List Char → Option ℕ
  | [a, b, c, d] => plainDigits? 0 [a, b, c, d]
  | _ => none

/-- `%m`: one or two digits, from 1 to 12. -/
def month? : List Char → Option ℕ
  | [c] => (digit? c).filter fun n => 1 ≤ n
  | [a, b] => (plainDigits? 0 [a, b]).filter fun n => 1 ≤ n && n ≤ 12
  | _ => none

/-- `%d`: one or two digits, from 1 to 31; a blank may stand for the first. -/
def day? : List Char → Option ℕ
  | [c] => (digit? c).filter fun n => 1 ≤ n
  | [' ', c] => (digit? c).filter fun n => 1 ≤ n
  | [a, b] => (plainDigits? 0 [a, b]).filter fun n => 1 ≤ n && n ≤ 31
  | _ => none

/-- `strptime(s, "%Y-%m-%d")`. -/
def isoDate? (s : String) : Option ℕ :=
  match (splitChars '-' s.toList) with
  | [y, m, d] =>
      match year? y, month? m, day? d with
      | some y, some m, some d => ordinal? y m d
      | _, _, _ => none
  | _ => none

/-- `strptime(s, "%d.%m.%Y")`, with the separator given. -/
def dayFirstDate? (sep : Char) (s : String) : Option ℕ :=
  match (splitChars sep s.toList) with
  | [d, m, y] =>
      match day? d, month? m, year? y with
      | some d, some m, some y => ordinal? y m d
      | _, _, _ => none
  | _ => none

/-- A number with at least `width` digits. -/
def padded (width n : ℕ) : String := String.ofList (List.replicate (width - (toString n).length) '0') ++ toString n

/-- Year, month and day of a day, counted from the first of January 1970.  A year here begins in March, and 146097 days
are the four hundred years after which the calendar repeats. -/
def civil (day : ℤ) : ℕ × ℕ × ℕ :=
  let shifted := day + 719468
  let dayOfEra := (shifted % 146097).toNat
  let yearOfEra := (dayOfEra - dayOfEra / 1460 + dayOfEra / 36524 - dayOfEra / 146096) / 365
  let dayOfYear := dayOfEra - (365 * yearOfEra + yearOfEra / 4 - yearOfEra / 100)
  let month := (5 * dayOfYear + 2) / 153
  let m := if month < 10 then month + 3 else month - 9
  let y := (shifted / 146097 * 400).toNat + yearOfEra + if m ≤ 2 then 1 else 0
  (y, m, dayOfYear - (153 * month + 2) / 5 + 1)

/-- `strftime("%Y-%m-%d")`. -/
def isoDay (day : ℤ) : String :=
  let (y, m, d) := civil day
  padded 4 y ++ "-" ++ padded 2 m ++ "-" ++ padded 2 d

theorem isoDay_ne_empty (day : ℤ) : isoDay day ≠ "" := by
  intro h
  have hnil := congrArg String.toList h
  simp [isoDay] at hnil

example : isoDay 20461 = "2026-01-08" ∧ isoDay 19782 = "2024-02-29" := by decide +kernel

example : isoDate? "2026-03-07" = dayFirstDate? '.' "7.3.2026" ∧ isoDate? "2026-02-30" = none ∧
    isoDate? "20_6-03-07" = none := by decide

end Pinnokio.Numbers
