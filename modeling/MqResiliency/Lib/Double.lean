/-
# Doubles

Python's `float` by the rational that it is, up to the sign of zero (`Double`).
`nearest` rounds to a double of any size, ties to even. What is beyond
`2 ^ 1024` then is an overflow: an infinity of a text (`Double.ofRat`), and an
`OverflowError` of an integer (`Double.ofInt`). `Double.parse` is `float(s)`.

Key theorem: `nearest_nearest`.
-/
import Mathlib.Data.Int.Log
import Mathlib.Data.Rat.Floor
import Mathlib.Tactic.Linarith
import MqResiliency.Lib.Text

namespace MqResiliency
namespace Py

/-! ### Rounding -/

/-- The integer nearest to `x`, and the even one of two. -/
def halfEven (x : ℚ) : ℤ :=
  if x - ⌊x⌋ < 1 / 2 then ⌊x⌋
  else if 1 / 2 < x - ⌊x⌋ then ⌊x⌋ + 1
  else if ⌊x⌋ % 2 = 0 then ⌊x⌋
  else ⌊x⌋ + 1

/-- The exponent of the last bit that a double has at `q`. -/
def lastBit (q : ℚ) : ℤ := max (-1074) (Int.log 2 |q| - 52)

/-- The double nearest to `q`, of any size. -/
def nearest (q : ℚ) : ℚ := halfEven (q / 2 ^ lastBit q) * 2 ^ lastBit q

theorem halfEven_intCast (n : ℤ) : halfEven n = n := by
  unfold halfEven
  rw [Int.floor_intCast, sub_self, if_pos (by norm_num)]

/-- Rounding stays between the integers around. -/
theorem abs_halfEven_le {x : ℚ} {n : ℕ} (h : |x| ≤ n) : |halfEven x| ≤ n := by
  have hx : -(n : ℚ) ≤ x ∧ x ≤ n := abs_le.mp h
  have hlow : -(n : ℤ) ≤ ⌊x⌋ := Int.le_floor.mpr (by push_cast; exact hx.1)
  have hhigh : ⌊x⌋ ≤ (n : ℤ) := by exact_mod_cast (Int.floor_le x).trans hx.2
  -- only a fraction is rounded up
  have hup : 1 / 2 ≤ x - ⌊x⌋ → ⌊x⌋ + 1 ≤ (n : ℤ) := by
    intro hfrac
    have hlt : (⌊x⌋ : ℚ) < (n : ℤ) := by
      push_cast
      linarith [hx.2]
    have hint : ⌊x⌋ < (n : ℤ) := by exact_mod_cast hlt
    omega
  rw [abs_le]
  unfold halfEven
  split
  · omega
  · rename_i hhalf
    have := hup (not_lt.mp hhalf)
    split
    · omega
    · split <;> omega

theorem le_halfEven {x : ℚ} {n : ℤ} (h : (n : ℚ) ≤ x) : n ≤ halfEven x := by
  have hfloor : n ≤ ⌊x⌋ := Int.le_floor.mpr h
  unfold halfEven
  split
  · exact hfloor
  · split
    · omega
    · split <;> omega

/-- What has its last bit at `e` or above is a double. -/
theorem nearest_of_bits {q : ℚ} (m : ℤ) {e : ℤ} (hq : q = m * 2 ^ e) (he : lastBit q ≤ e) : nearest q = q := by
  have h2 : (2 : ℚ) ≠ 0 := by norm_num
  obtain ⟨k, hk⟩ := Int.eq_ofNat_of_zero_le (sub_nonneg.mpr he)
  have hsplit : (2 : ℚ) ^ e = 2 ^ k * 2 ^ lastBit q := by
    rw [← zpow_natCast, ← zpow_add₀ h2]
    congr 1
    omega
  have hdiv : q / 2 ^ lastBit q = ((m * 2 ^ k : ℤ) : ℚ) := by
    have hne : (2 : ℚ) ^ lastBit q ≠ 0 := zpow_ne_zero _ h2
    rw [div_eq_iff hne]
    conv_lhs => rw [hq, hsplit]
    push_cast
    ring
  have hround : halfEven (q / 2 ^ lastBit q) = m * 2 ^ k := by rw [hdiv, halfEven_intCast]
  rw [nearest, hround]
  conv_rhs => rw [hq, hsplit]
  push_cast
  ring

theorem lastBit_le {q : ℚ} (hq : q ≠ 0) {e : ℤ} (he : -1074 ≤ e) (h : |q| < 2 ^ (e + 53)) : lastBit q ≤ e := by
  have hpow := Int.zpow_log_le_self (b := 2) (by norm_num) (abs_pos.mpr hq)
  have hlt : (2 : ℚ) ^ Int.log 2 |q| < 2 ^ (e + 53) := lt_of_le_of_lt (by exact_mod_cast hpow) h
  have hlog := (zpow_lt_zpow_iff_right₀ (by norm_num : (1 : ℚ) < 2)).mp hlt
  exact max_le he (by omega)

theorem nearest_zero : nearest 0 = 0 := by
  have hzero : halfEven 0 = 0 := halfEven_intCast 0
  rw [nearest, zero_div, hzero, Int.cast_zero, zero_mul]

/-- At most 53 bits, from an exponent on that doubles have. -/
theorem nearest_eq_self {q : ℚ} {m e : ℤ} (hq : q = m * 2 ^ e) (hm : |m| ≤ 2 ^ 53) (he : -1074 ≤ e) :
    nearest q = q := by
  by_cases hzero : q = 0
  · rw [hzero, nearest_zero]
  have h2 : (0 : ℚ) < 2 ^ e := zpow_pos (by norm_num) e
  have habs : |q| = |m| * 2 ^ e := by
    rw [hq, abs_mul, abs_of_pos h2]
    push_cast
    rfl
  have htop : (2 : ℚ) ^ (e + 53) = 2 ^ 53 * 2 ^ e := by
    rw [zpow_add₀ (by norm_num), mul_comm]
    norm_num
  by_cases hlt : |m| < 2 ^ 53
  · refine nearest_of_bits m hq (lastBit_le hzero he ?_)
    have hcast : ((|m| : ℤ) : ℚ) < 2 ^ 53 := by exact_mod_cast hlt
    rw [habs, htop]
    exact mul_lt_mul_of_pos_right hcast h2
  · -- the 54th bit, and nothing below it: it is one bit of the next exponent on
    have hval : |m| = 2 ^ 53 := le_antisymm hm (not_lt.mp hlt)
    obtain ⟨s, hs⟩ : ∃ s : ℤ, m = s * 2 ^ 53 := by
      rcases abs_choice m with h | h
      · exact ⟨1, by omega⟩
      · exact ⟨-1, by omega⟩
    have hnext : (2 : ℚ) ^ (e + 1) = 2 * 2 ^ e := by
      rw [zpow_add₀ (by norm_num), zpow_one, mul_comm]
    refine nearest_of_bits (s * 2 ^ 52) (e := e + 1) ?_ (lastBit_le hzero (by omega) ?_)
    · rw [hq, hs, hnext]
      push_cast
      ring
    · have hmore : (2 : ℚ) ^ (e + 1 + 53) = 2 * (2 ^ 53 * 2 ^ e) := by
        rw [show e + 1 + 53 = (e + 53) + 1 by ring, zpow_add₀ (by norm_num), zpow_one, htop, mul_comm]
      have hcast : ((|m| : ℤ) : ℚ) = 2 ^ 53 := by exact_mod_cast hval
      have hpos : (0 : ℚ) < 2 ^ 53 * 2 ^ e := mul_pos (by norm_num) h2
      rw [habs, hcast, hmore]
      linarith

/-- **A double is its own nearest.** -/
theorem nearest_nearest (q : ℚ) : nearest (nearest q) = nearest q := by
  have h2 : (0 : ℚ) < 2 ^ lastBit q := zpow_pos (by norm_num) _
  have hbound : |q / 2 ^ lastBit q| ≤ (2 ^ 53 : ℕ) := by
    have hlog : Int.log 2 |q| + 1 ≤ lastBit q + 53 := by
      have := le_max_right (-1074) (Int.log 2 |q| - 52)
      unfold lastBit
      omega
    have hlt : |q| < 2 ^ (Int.log 2 |q| + 1) := by exact_mod_cast Int.lt_zpow_succ_log_self (by norm_num : 1 < 2) |q|
    rw [abs_div, abs_of_pos h2, div_le_iff₀ h2]
    calc |q| ≤ 2 ^ (Int.log 2 |q| + 1) := hlt.le
      _ ≤ 2 ^ (lastBit q + 53) := zpow_le_zpow_right₀ (by norm_num) hlog
      _ = (2 ^ 53 : ℕ) * 2 ^ lastBit q := by
        rw [zpow_add₀ (by norm_num), mul_comm]
        norm_num
  exact nearest_eq_self rfl (by exact_mod_cast abs_halfEven_le hbound) (le_max_left _ _)

/-- Rounding passes no power of two. -/
theorem abs_nearest_le {q : ℚ} {k : ℕ} (h : |q| ≤ 2 ^ k) : |nearest q| ≤ 2 ^ k := by
  by_cases hzero : q = 0
  · rw [hzero, nearest_zero, abs_zero]
    positivity
  have hbit : lastBit q ≤ k := by
    refine lastBit_le hzero (by omega) (h.trans_lt ?_)
    rw [← zpow_natCast]
    exact zpow_lt_zpow_right₀ (by norm_num) (by omega)
  obtain ⟨m, hm⟩ := Int.eq_ofNat_of_zero_le (sub_nonneg.mpr hbit)
  have h2 : (0 : ℚ) < 2 ^ lastBit q := zpow_pos (by norm_num) _
  have hsplit : (2 : ℚ) ^ k = 2 ^ m * 2 ^ lastBit q := by
    rw [← zpow_natCast, ← zpow_natCast, ← zpow_add₀ (by norm_num)]
    congr 1
    omega
  have hscaled : |q / 2 ^ lastBit q| ≤ (2 ^ m : ℕ) := by
    rw [abs_div, abs_of_pos h2, div_le_iff₀ h2]
    push_cast
    rwa [← hsplit]
  have hround : |(halfEven (q / 2 ^ lastBit q) : ℚ)| ≤ 2 ^ m := by exact_mod_cast abs_halfEven_le hscaled
  rw [nearest, abs_mul, abs_of_pos h2, hsplit]
  exact mul_le_mul_of_nonneg_right hround h2.le

/-- Rounding is the same on both sides of zero. -/
theorem nearest_abs {q : ℚ} (h : nearest q = q) : nearest |q| = |q| := by
  rcases abs_choice q with habs | habs
  · rw [habs, h]
  · have hbit : lastBit |q| = lastBit q := by rw [lastBit, lastBit, abs_abs]
    refine nearest_of_bits (-halfEven (q / 2 ^ lastBit q)) (e := lastBit q) ?_ hbit.le
    have hq : (halfEven (q / 2 ^ lastBit q) : ℚ) * 2 ^ lastBit q = q := h
    rw [habs, Int.cast_neg, neg_mul, hq]

/-! ### The type -/

/-- What no finite double reaches. -/
def doubleBound : ℚ := 2 ^ 1024

/-- A finite double. -/
def IsDouble (q : ℚ) : Prop := nearest q = q ∧ |q| < doubleBound

inductive Double : Type where
  | nan
  | negInf
  | fin (q : ℚ) (h : IsDouble q)
  | posInf

namespace Double

/-- The nearest double, or an infinity. -/
def ofRat (q : ℚ) : Double :=
  if hhigh : doubleBound ≤ nearest q then .posInf
  else if hlow : nearest q ≤ -doubleBound then .negInf
  else .fin (nearest q) ⟨nearest_nearest q, abs_lt.mpr ⟨not_le.mp hlow, not_le.mp hhigh⟩⟩

/-- `float(n)`, `none` where Python raises `OverflowError`. -/
def ofInt (n : ℤ) : Option Double :=
  if h : |nearest n| < doubleBound then some (.fin (nearest n) ⟨nearest_nearest n, h⟩) else none

theorem ofInt_of_isDouble {n : ℤ} (h : IsDouble n) : ofInt n = some (.fin n h) := by
  have hlt : |nearest n| < doubleBound := by
    rw [h.1]
    exact h.2
  unfold ofInt
  rw [dif_pos hlt]
  simp only [h.1]

/-- What 53 bits hold is a double. -/
theorem isDouble_intCast {n : ℤ} (h : |n| ≤ 2 ^ 53) : IsDouble n := by
  refine ⟨nearest_eq_self (m := n) (e := 0) (by simp) h (by norm_num), ?_⟩
  have hcast : |(n : ℚ)| ≤ 2 ^ 53 := by exact_mod_cast h
  exact lt_of_le_of_lt hcast (pow_lt_pow_right₀ (by norm_num) (by norm_num))

/-! ### Text -/

/-- The value of digits, `frac` of them after the point, and an exponent. -/
def scaled (digits : Str) (frac : ℕ) (exponent : ℤ) : ℚ := Nat.ofDigitChars 10 digits 0 * 10 ^ (exponent - frac)

/-- The digits of an exponent, after its sign. -/
def exponentDigits (s : Str) : Option ℕ := if s ≠ [] ∧ s.all Char.isDigit then some (Nat.ofDigitChars 10 s 0) else none

def exponentOf : Str → Option ℤ
  | '-' :: s => (exponentDigits s).map fun n => -(n : ℤ)
  | '+' :: s => (exponentDigits s).map (↑)
  | s => (exponentDigits s).map (↑)

/-- What follows the digits of a decimal. -/
def decimalEnd (digits : Str) (frac : ℕ) : Str → Option ℚ
  | [] => some (scaled digits frac 0)
  | c :: s => if c = 'e' ∨ c = 'E' then (exponentOf s).map (scaled digits frac) else none

/-- An unsigned decimal. -/
def decimalOf (s : Str) : Option ℚ :=
  let whole := s.takeWhile Char.isDigit
  match s.dropWhile Char.isDigit with
  | '.' :: t =>
    let frac := t.takeWhile Char.isDigit
    if whole = [] ∧ frac = [] then none else decimalEnd (whole ++ frac) frac.length (t.dropWhile Char.isDigit)
  | t => if whole = [] then none else decimalEnd whole 0 t

/-- The text without its underscores, which stand between digits. -/
def dropUnderscores : (prev : Char) → Str → Option Str
  | prev, [] => if prev = '_' then none else some []
  | prev, c :: s =>
    if c = '_' then (if prev.isDigit then dropUnderscores c s else none)
    else if prev = '_' ∧ c.isDigit = false then none
    else (dropUnderscores c s).map (c :: ·)

/-- A text after its sign. -/
def ofUnsigned (neg : Bool) (s : Str) : Option Double :=
  let word := s.map Char.toLower
  if word = "inf".toList ∨ word = "infinity".toList then some (if neg then .negInf else .posInf)
  else if word = "nan".toList then some .nan
  else (decimalOf s).map fun q => ofRat (if neg then -q else q)

/-- `float(s)`, `none` where Python raises `ValueError`. -/
def parse (s : Str) : Option Double :=
  (dropUnderscores ' ' (strip (toAscii s))).bind fun t =>
    match t with
    | '-' :: t => ofUnsigned true t
    | '+' :: t => ofUnsigned false t
    | t => ofUnsigned false t

/-- `int(x)` of a finite float. -/
def truncate (q : ℚ) : ℤ := q.num.tdiv q.den

/-! ### Arithmetic -/

theorem isDouble_zero : IsDouble 0 := ⟨nearest_zero, by norm_num [doubleBound]⟩

/-- `0.0`. -/
def zero : Double := .fin 0 isDouble_zero

def neg : Double → Double
  | .nan => .nan
  | .negInf => .posInf
  | .fin q _ => ofRat (-q)
  | .posInf => .negInf

/-- `x + y`. -/
def add : Double → Double → Double
  | .fin a _, .fin b _ => ofRat (a + b)
  | .nan, _ | _, .nan => .nan
  | .posInf, .negInf | .negInf, .posInf => .nan
  | .posInf, _ | _, .posInf => .posInf
  | .negInf, _ | _, .negInf => .negInf

/-- `x - y`. -/
def sub (x y : Double) : Double := x.add y.neg

/-- `x * c`, by a positive number. -/
def scale (c : ℚ) : Double → Double
  | .fin q _ => ofRat (q * c)
  | x => x

/-- `x <= y`. -/
def le : Double → Double → Bool
  | .nan, _ | _, .nan => false
  | .negInf, _ | _, .posInf => true
  | .fin a _, .fin b _ => a ≤ b
  | .posInf, _ | _, .negInf => false

/-- `x < y`. -/
def lt (x y : Double) : Bool := x.le y && !y.le x

/-- `bool(x)`. -/
def isTrue : Double → Bool
  | .fin q _ => q ≠ 0
  | _ => true

theorem le_trans {x y z : Double} (hxy : x.le y) (hyz : y.le z) : x.le z := by
  cases x <;> cases y <;> cases z <;> simp_all [le]
  exact Rat.le_trans hxy hyz

end Double
end Py
end MqResiliency
