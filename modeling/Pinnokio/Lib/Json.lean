import Pinnokio.Lib.Dict

/-!
# JSON values of a scripting language

The scalar values of a decoded JSON object, with the truth value and the text the interpreter gives them, and the
two forms of reading a key.
-/

namespace Pinnokio

/-- A JSON scalar as the interpreter holds it. -/
inductive Scalar where
  | none
  | bool (b : Bool)
  | int (n : Int)
  | str (s : String)
  deriving DecidableEq

namespace Scalar

/-- Truth value of a scalar. -/
def truthy : Scalar → Bool
  | none => false
  | bool b => b
  | int n => n ≠ 0
  | str s => s ≠ ""

/-- `str(v)`. -/
def toStr : Scalar → String
  | none => "None"
  | bool true => "True"
  | bool false => "False"
  | int n => toString n
  | str s => s

theorem toStr_ne_empty {v : Scalar} (h : v.truthy = true) : v.toStr ≠ "" := by
  cases v with
  | none => cases h
  | bool b => cases b <;> decide
  | int n =>
      cases n with
      | ofNat m => exact Nat.repr_ne_empty
      | negSucc m => exact fun h => by simpa [toStr, toString, Int.repr] using congrArg String.length h
  | str s => simpa [truthy, toStr] using h

/-- A scalar with a truth value as the number it stands for. -/
def canon : Scalar → Scalar
  | bool b => int b.toInt
  | v => v

/-- The interpreter's `a == b`. -/
def same (a b : Scalar) : Bool := decide (a.canon = b.canon)

/-- The interpreter's `a or b`. -/
def or (a b : Scalar) : Scalar := if a.truthy then a else b

end Scalar

/-- The scalar keys of a JSON object. -/
abbrev Fields := Dict String Scalar

/-- `fields.get(k)`. -/
def Fields.get (f : Fields) (k : String) : Scalar := (f.get? k).getD .none

/-- `fields.get(k, default)`. -/
def Fields.getD (f : Fields) (k : String) (default : Scalar) : Scalar := (f.get? k).getD default

/-- `d.setdefault(k, v)`. -/
def Fields.setDefault (f : Fields) (k : String) (v : Scalar) : Fields :=
  if k ∈ f.keys then f else f.set k v

end Pinnokio
