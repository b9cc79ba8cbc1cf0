/-
# The text of a float

`float(s)` and `repr(x)` in Python. `repr` is the shortest decimal that reads
back as the float, and of those the nearest (`shortest`), in positional
notation where its point is not far (`pointed`). A `float` keeps the sign that
a zero has, which `Double` leaves out.
-/
import MqResiliency.Lib.Double

namespace MqResiliency
namespace Py

/-- A float, with the sign of its zero. -/
structure PyFloat : Type where
  minus : Bool
  value : Double

/-- `float(s)`, `none` where Python raises `ValueError`. -/
def float (s : Str) : Option PyFloat :=
  (Double.parse s).map fun value => ⟨(strip (toAscii s)).head? = some '-', value⟩

/-- An exponent with its sign, of two digits at least. -/
def exponentText (e : ℤ) : Str :=
  (if e < 0 then '-' else '+') :: (if e.natAbs < 10 then ['0'] else []) ++ Nat.toDigits 10 e.natAbs

/-- The digits with their point after `point` of them. -/
def pointed (digits : Str) (point : ℤ) : Str :=
  if point ≤ -4 ∨ 16 < point then
    digits.take 1 ++ (if digits.length ≤ 1 then [] else '.' :: digits.drop 1) ++ 'e' :: exponentText (point - 1)
  else if point ≤ 0 then "0.".toList ++ List.replicate point.natAbs '0' ++ digits
  else if point < digits.length then digits.take point.natAbs ++ '.' :: digits.drop point.natAbs
  else digits ++ List.replicate (point.natAbs - digits.length) '0' ++ ".0".toList

/-- `m * 10 ^ e`. -/
def decimalText (m : ℕ) (e : ℤ) : Str :=
  let digits := Nat.toDigits 10 m
  pointed (digits.rdropWhile fun c => c = '0') (digits.length + e)

/-- The two decimals of `n` digits next to `q`, the nearest first. -/
def candidates (q : ℚ) (n : ℕ) : List Str :=
  let e := Int.log 10 q + 1 - n
  let x := q / 10 ^ e
  let m := halfEven x
  let other := if m = ⌊x⌋ then ⌊x⌋ + 1 else ⌊x⌋
  [decimalText m.natAbs e, decimalText other.natAbs e]

/-- `float(t) == q`, for an unsigned decimal. -/
def readsBack (q : ℚ) (t : Str) : Bool := (Double.decimalOf t).map nearest = some q

/-- The shortest decimal of a positive double; 17 digits always are enough. -/
def shortest (q : ℚ) : Str :=
  (((List.range 17).flatMap fun n => candidates q (n + 1)).find? (readsBack q)).getD "0.0".toList

/-- `repr(x)`, which is also `str(x)`. -/
def PyFloat.repr (x : PyFloat) : Str :=
  match x.value with
  | .nan => "nan".toList
  | .posInf => "inf".toList
  | .negInf => "-inf".toList
  | .fin q _ =>
    if q = 0 then if x.minus then "-0.0".toList else "0.0".toList
    else if q < 0 then '-' :: shortest (-q)
    else shortest q

end Py
end MqResiliency
