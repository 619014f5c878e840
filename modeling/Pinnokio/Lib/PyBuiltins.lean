import Pinnokio.Lib.Numbers
import Pinnokio.Lib.PyJson

/-!
# Built-in functions of the interpreter

`bool`, `str`, `int` and `float` on values of any type.  Floats, dates and the objects that have no case of their own
are those of an interpreter: what it does with them is given, with the laws that the text of a float is read as that
float and that the text of a date starts with its ISO form.

* `str_float_injective`, `str_int_injective` — the texts of numbers determine them;
* `str_float_ne_none`, `str_int_ne_none` — and are not that of `None`.
-/

namespace Pinnokio.PyBuiltins

open Pinnokio.PyJson Pinnokio.Text

/-- `str(x)` of a float. -/
def floatText {F : Type} (repr : F → String) : PyFloat F → String
  | .finite x => repr x
  | .nan => "nan"
  | .inf false => "inf"
  | .inf true => "-inf"

/-- `s[:n]`. -/
def takeChars (n : ℕ) (s : String) : String := String.ofList (s.toList.take n)

/-- An exception of `float`: a `ValueError` or `TypeError`, or an `OverflowError`. -/
inductive FloatError where
  | invalid
  | overflow
  deriving DecidableEq

/-- The floats `F`, the other objects `O`, and the dates among them. -/
structure Interpreter (F O : Type) where
  zero : F
  one : F
  isZero : F → Bool
  isPositive : F → Bool
  repr : F → String
  /-- `float(s)`. -/
  parse : String → Option (PyFloat F)
  parse_text : ∀ x, parse (floatText repr x) = some x
  parse_none : parse "None" = none
  /-- `float(n)`; `none` is the `OverflowError`. -/
  ofInt : ℤ → Option F
  /-- `int(x)`. -/
  trunc : F → ℤ
  /-- The text of a container or an object. -/
  strOther : PyValue F O → String
  isTrue : O → Bool
  floatOf : O → Except FloatError (PyFloat F)
  intOf : O → Option ℤ
  Date : Type
  Datetime : Type
  date : Datetime → Date
  midnight : Date → Datetime
  /-- The object is a `date` and no `datetime`. -/
  asDate : O → Option Date
  asDatetime : O → Option Datetime
  /-- `date.fromisoformat`. -/
  fromisoformat : String → Option Date
  fromisoformat_empty : fromisoformat "" = none
  fromisoformat_asDate : ∀ o d, asDate o = some d → fromisoformat (takeChars 10 (strOther (.object o))) = some d
  fromisoformat_asDatetime :
    ∀ o t, asDatetime o = some t → fromisoformat (takeChars 10 (strOther (.object o))) = some (date t)
  /-- `datetime.fromisoformat`. -/
  datetimeFromisoformat : String → Option Datetime

section

variable {F O : Type} (I : Interpreter F O)

/-! ### Truth and texts -/

/-- `bool(v)`. -/
def truthy : PyValue F O → Bool
  | .none => false
  | .bool b => b
  | .int n => n ≠ 0
  | .float (.finite x) => !I.isZero x
  | .float _ => true
  | .str s => s ≠ ""
  | .list items => !items.isEmpty
  | .tuple items => !items.isEmpty
  | .dict entries => !entries.isEmpty
  | .object o => I.isTrue o

/-- `v or w`. -/
def pyOr (v w : PyValue F O) : PyValue F O := if truthy I v then v else w

/-- `str(v)`. -/
def str : PyValue F O → String
  | .none => "None"
  | .bool true => "True"
  | .bool false => "False"
  | .int n => toString n
  | .float x => floatText I.repr x
  | .str s => s
  | v => I.strOther v

/-- The items of a list or a tuple. -/
def items? : PyValue F O → Option (List (PyValue F O))
  | .list items => some items
  | .tuple items => some items
  | _ => none

/-! ### Numbers -/

/-- `int(v)`; `none` is any exception. -/
def toInt : PyValue F O → Option ℤ
  | .bool b => some (if b then 1 else 0)
  | .int n => some n
  | .float (.finite x) => some (I.trunc x)
  | .str s => Numbers.int? s
  | .object o => I.intOf o
  | _ => none

/-- `float(v)`. -/
def toFloat : PyValue F O → Except FloatError (PyFloat F)
  | .bool b => .ok (.finite (if b then I.one else I.zero))
  | .int n =>
      match I.ofInt n with
      | none => .error .overflow
      | some x => .ok (.finite x)
  | .float x => .ok x
  | .str s =>
      match I.parse s with
      | none => .error .invalid
      | some x => .ok x
  | .object o => I.floatOf o
  | _ => .error .invalid

/-- `x > 0`. -/
def isPositive : PyFloat F → Bool
  | .finite x => I.isPositive x
  | .nan => false
  | .inf negative => !negative

/-- `x != 0.0`. -/
def isNonzero : PyFloat F → Bool
  | .finite x => !I.isZero x
  | _ => true

variable {I}

/-- The text of a float determines it. -/
theorem str_float_injective {x y : PyFloat F} (h : str I (.float x) = str I (.float y)) : x = y := by
  have hx := I.parse_text x
  have htext : floatText I.repr x = floatText I.repr y := h
  rw [htext, I.parse_text y] at hx
  exact (Option.some.inj hx).symm

theorem str_float_ne_none (x : PyFloat F) : str I (.float x) ≠ "None" := by
  intro h
  have hx := I.parse_text x
  have htext : floatText I.repr x = "None" := h
  rw [htext, I.parse_none] at hx
  cases hx

/-- The text of an integer determines it. -/
theorem str_int_injective {n m : ℤ} (h : str I (.int n) = str I (.int m)) : n = m := by
  have hn := Numbers.int?_toString_int n
  have htext : toString n = toString m := h
  rw [htext, Numbers.int?_toString_int m] at hn
  exact (Option.some.inj hn).symm

theorem str_int_ne_none (n : ℤ) : str I (.int n) ≠ "None" := by
  intro h
  have hn := Numbers.int?_toString_int n
  have htext : toString n = "None" := h
  have hnone : Numbers.int? "None" = none := by decide
  rw [htext, hnone] at hn
  cases hn

end

end Pinnokio.PyBuiltins
