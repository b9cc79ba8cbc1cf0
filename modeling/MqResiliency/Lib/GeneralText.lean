/-
# The general format of a float

`format(x, 'g')` in Python: the decimal of six significant digits that is
nearest to the float (`sixDigits`), without the zeros at its end, in positional
notation where its exponent is between -5 and 6 (`generalPointed`).

The text reads back as that decimal (`decimalOf_text`), so two floats
have one text just where they have one sign and round to one decimal
(`generalText_eq_iff`).
-/
import Mathlib.Tactic.Ring
import MqResiliency.Lib.Exposition

namespace MqResiliency
namespace Py

/-- A decimal of six significant digits, `mantissa * 10 ^ exponent`. -/
structure SixDigits : Type where
  mantissa : ℕ
  exponent : ℤ
deriving DecidableEq

/-- The decimal of six significant digits nearest to a positive rational. -/
def sixDigits (q : ℚ) : SixDigits :=
  let e := Int.log 10 q - 5
  let m := (halfEven (q / 10 ^ e)).natAbs
  if m = 1000000 then ⟨100000, e + 1⟩ else ⟨m, e⟩

/-- Digits with their point after `point` of them. -/
def generalPointed (digits : Str) (point : ℤ) : Str :=
  if point ≤ -4 ∨ 6 < point then
    digits.take 1 ++ (if digits.length ≤ 1 then [] else '.' :: digits.drop 1) ++ 'e' :: exponentText (point - 1)
  else if point ≤ 0 then "0.".toList ++ List.replicate point.natAbs '0' ++ digits
  else if point < digits.length then digits.take point.natAbs ++ '.' :: digits.drop point.natAbs
  else digits ++ List.replicate (point.natAbs - digits.length) '0'

/-- The text of a decimal of six significant digits. -/
def SixDigits.text (d : SixDigits) : Str :=
  let digits := Nat.toDigits 10 d.mantissa
  generalPointed (digits.rdropWhile fun c => c = '0') (digits.length + d.exponent)

/-- `format(x, 'g')`. -/
def PyFloat.generalText (x : PyFloat) : Str :=
  match x.value with
  | .nan => "nan".toList
  | .posInf => "inf".toList
  | .negInf => "-inf".toList
  | .fin q _ =>
    if q = 0 then if x.minus then "-0".toList else "0".toList
    else if q < 0 then '-' :: (sixDigits (-q)).text
    else (sixDigits q).text

/-! ### Reading decimals -/

/-- What follows digits is no digit. -/
def Stops (r : Str) : Prop := ∀ c, r.head? = some c → c.isDigit = false

theorem stops_nil : Stops [] := fun _ h => by cases h

theorem stops_cons {c : Char} (h : c.isDigit = false) (r : Str) : Stops (c :: r) := fun d hd => by
  obtain rfl : c = d := by simpa using hd
  exact h

theorem takeWhile_digits {s r : Str} (h : ∀ c ∈ s, c.isDigit) (hr : Stops r) :
    (s ++ r).takeWhile Char.isDigit = s ∧ (s ++ r).dropWhile Char.isDigit = r := by
  cases r with
  | nil =>
    rw [List.append_nil]
    exact ⟨List.takeWhile_eq_self_iff.mpr h, List.dropWhile_eq_nil_iff.mpr h⟩
  | cons c r => exact Exposition.takeWhile_name h (hr c rfl) r

namespace Double

/-- Digits without a point. -/
theorem decimalOf_whole {s r : Str} (hne : s ≠ []) (h : ∀ c ∈ s, c.isDigit) (hr : Stops r)
    (hpoint : r.head? ≠ some '.') : decimalOf (s ++ r) = decimalEnd s 0 r := by
  obtain ⟨htake, hdrop⟩ := takeWhile_digits h hr
  unfold decimalOf
  simp only [htake, hdrop]
  split
  · exact absurd rfl hpoint
  · rw [if_neg hne]

/-- Digits with a point. -/
theorem decimalOf_point {s t r : Str} (hne : s ≠ []) (hs : ∀ c ∈ s, c.isDigit) (ht : ∀ c ∈ t, c.isDigit)
    (hr : Stops r) : decimalOf (s ++ '.' :: (t ++ r)) = decimalEnd (s ++ t) t.length r := by
  obtain ⟨htake, hdrop⟩ := takeWhile_digits hs (stops_cons (by decide) (t ++ r) : Stops ('.' :: (t ++ r)))
  obtain ⟨htake', hdrop'⟩ := takeWhile_digits ht hr
  unfold decimalOf
  simp only [htake, hdrop, htake', hdrop']
  rw [if_neg fun h => hne h.1]

theorem exponentOf_exponentText (e : ℤ) : exponentOf (exponentText e) = some e := by
  have hdigits : exponentDigits ((if e.natAbs < 10 then ['0'] else []) ++ Nat.toDigits 10 e.natAbs) = some e.natAbs := by
    have hall : ∀ c ∈ (if e.natAbs < 10 then ['0'] else []) ++ Nat.toDigits 10 e.natAbs, c.isDigit := by
      intro c hc
      rcases List.mem_append.mp hc with hc | hc
      · by_cases hlt : e.natAbs < 10 <;> simp [hlt] at hc
        exact hc ▸ rfl
      · exact isDigit_toDigits _ c hc
    have hvalue : Nat.ofDigitChars 10 ((if e.natAbs < 10 then ['0'] else []) ++ Nat.toDigits 10 e.natAbs) 0 =
        e.natAbs := by
      have hzero : Nat.ofDigitChars 10 (if e.natAbs < 10 then ['0'] else []) 0 = 0 := by
        by_cases hlt : e.natAbs < 10
        · rw [if_pos hlt]
          rfl
        · rw [if_neg hlt]
          rfl
      rw [Nat.ofDigitChars_append, hzero, Nat.ofDigitChars_ten_toDigits]
    unfold exponentDigits
    rw [if_pos ⟨by simp, List.all_eq_true.mpr hall⟩, hvalue]
  unfold exponentText
  rw [List.cons_append]
  by_cases hneg : e < 0
  · rw [if_pos hneg, exponentOf, hdigits]
    show some (-(e.natAbs : ℤ)) = some e
    rw [Option.some_inj]
    omega
  · rw [if_neg hneg, exponentOf, hdigits, Option.map_some, Option.some_inj]
    omega

theorem decimalEnd_exponentText (digits : Str) (frac : ℕ) (e : ℤ) :
    decimalEnd digits frac ('e' :: exponentText e) = some (scaled digits frac e) := by
  simp only [decimalEnd, exponentOf_exponentText, true_or, if_true, Option.map_some]

end Double

/-! ### The text reads back -/

/-- Pointed digits read back as their value, with the point where it is. -/
theorem decimalOf_generalPointed {digits : Str} (hne : digits ≠ []) (h : ∀ c ∈ digits, c.isDigit) (point : ℤ) :
    Double.decimalOf (generalPointed digits point) =
      some ((Nat.ofDigitChars 10 digits 0 : ℚ) * 10 ^ (point - digits.length)) := by
  have hzeros : ∀ k, ∀ c ∈ List.replicate k '0', c.isDigit := fun k c hc => List.eq_of_mem_replicate hc ▸ rfl
  have hlen : 0 < digits.length := List.length_pos_iff.mpr hne
  unfold generalPointed
  split
  · -- one digit before the point, and an exponent
    have hexp : Stops ('e' :: exponentText (point - 1)) := stops_cons (by decide) _
    obtain ⟨d, ds, rfl⟩ := List.exists_cons_of_ne_nil hne
    have hd : ∀ c ∈ [d], c.isDigit := fun c hc => h c (List.mem_singleton.mp hc ▸ List.mem_cons_self)
    cases ds with
    | nil =>
      show Double.decimalOf ([d] ++ 'e' :: exponentText (point - 1)) = _
      rw [Double.decimalOf_whole (List.cons_ne_nil d []) hd hexp (by simp), Double.decimalEnd_exponentText]
      simp [Double.scaled]
    | cons d' ds =>
      show Double.decimalOf ([d] ++ '.' :: ((d' :: ds) ++ 'e' :: exponentText (point - 1))) = _
      rw [Double.decimalOf_point (List.cons_ne_nil d []) hd (fun c hc => h c (List.mem_cons_of_mem d hc)) hexp,
        Double.decimalEnd_exponentText, Double.scaled]
      congr 3
      simp only [List.length_cons]
      push_cast
      ring
  · split
    · -- zeros after the point
      have hall : ∀ c ∈ List.replicate point.natAbs '0' ++ digits, c.isDigit := fun c hc =>
        (List.mem_append.mp hc).elim (hzeros _ c) (h c)
      have hread := Double.decimalOf_point (List.cons_ne_nil '0' []) (hzeros 1) hall stops_nil
      rw [List.append_nil] at hread
      show Double.decimalOf (['0'] ++ '.' :: (List.replicate point.natAbs '0' ++ digits)) = _
      rw [hread, Double.decimalEnd, Double.scaled, Nat.ofDigitChars_append, Nat.ofDigitChars_append,
        Nat.ofDigitChars_replicate_zero]
      have habs : (point.natAbs : ℤ) = -point := by omega
      congr 3
      simp only [List.length_append, List.length_replicate]
      rw [Nat.cast_add, habs]
      ring
    · rename_i hpos
      obtain ⟨n, rfl⟩ := Int.eq_ofNat_of_zero_le (by omega : 0 ≤ point)
      rw [Int.natAbs_natCast]
      split
      · -- the point among the digits
        rename_i hlt
        have htake : digits.take n ≠ [] := fun h0 => by
          have := congrArg List.length h0
          simp only [List.length_take, List.length_nil] at this
          omega
        have hread := Double.decimalOf_point htake (fun c hc => h c (List.mem_of_mem_take hc))
          (fun c hc => h c (List.mem_of_mem_drop hc)) stops_nil (t := digits.drop n)
        rw [List.append_nil] at hread
        rw [hread, Double.decimalEnd, Double.scaled, List.take_append_drop, List.length_drop]
        congr 3
        omega
      · -- zeros before it
        rename_i hge
        have hall : ∀ c ∈ digits ++ List.replicate (n - digits.length) '0', c.isDigit := fun c hc =>
          (List.mem_append.mp hc).elim (h c) (hzeros _ c)
        have hread := Double.decimalOf_whole (by simp [hne]) hall stops_nil (by simp)
        rw [List.append_nil] at hread
        rw [hread, Double.decimalEnd, Double.scaled, Nat.ofDigitChars_append, Nat.ofDigitChars_replicate_zero]
        have hexp : (10 : ℚ) ^ ((n : ℤ) - digits.length) = 10 ^ (n - digits.length) := by
          rw [← zpow_natCast]
          congr 1
          omega
        rw [hexp]
        push_cast
        congr 1
        ring

/-! ### Six digits -/

/-- The number that a decimal is. -/
def SixDigits.value (d : SixDigits) : ℚ := d.mantissa * 10 ^ d.exponent

/-- Its digits are six. -/
def SixDigits.Normal (d : SixDigits) : Prop := 100000 ≤ d.mantissa ∧ d.mantissa < 1000000

theorem normal_sixDigits {q : ℚ} (h : 0 < q) : (sixDigits q).Normal := by
  have h10 : (0 : ℚ) < 10 ^ (Int.log 10 q - 5) := zpow_pos (by norm_num) _
  have hlow : (10 : ℚ) ^ Int.log 10 q ≤ q := by exact_mod_cast Int.zpow_log_le_self (b := 10) (by norm_num) h
  have hhigh : q < 10 ^ (Int.log 10 q + 1) := by exact_mod_cast Int.lt_zpow_succ_log_self (by norm_num : 1 < 10) q
  have hscale : ∀ k : ℕ, (10 : ℚ) ^ (Int.log 10 q - 5 + k) = 10 ^ k * 10 ^ (Int.log 10 q - 5) := fun k => by
    rw [zpow_add₀ (by norm_num), zpow_natCast, mul_comm]
  have hge : (100000 : ℚ) ≤ q / 10 ^ (Int.log 10 q - 5) := by
    rw [le_div_iff₀ h10]
    calc (100000 : ℚ) * 10 ^ (Int.log 10 q - 5) = 10 ^ (Int.log 10 q - 5 + (5 : ℕ)) := by
          rw [hscale]
          norm_num
      _ = 10 ^ Int.log 10 q := by
          congr 1
          push_cast
          ring
      _ ≤ q := hlow
  have hle : q / 10 ^ (Int.log 10 q - 5) ≤ 1000000 := by
    rw [div_le_iff₀ h10]
    calc q ≤ 10 ^ (Int.log 10 q + 1) := hhigh.le
      _ = 10 ^ (Int.log 10 q - 5 + (6 : ℕ)) := by
          congr 1
          push_cast
          ring
      _ = 1000000 * 10 ^ (Int.log 10 q - 5) := by
          rw [hscale]
          norm_num
  have hbelow := le_halfEven (n := 100000) (by exact_mod_cast hge)
  have habove : |halfEven (q / 10 ^ (Int.log 10 q - 5))| ≤ (1000000 : ℕ) :=
    abs_halfEven_le (by rw [abs_of_nonneg (by linarith)]; exact_mod_cast hle)
  rw [abs_le] at habove
  unfold sixDigits SixDigits.Normal
  by_cases hm : (halfEven (q / 10 ^ (Int.log 10 q - 5))).natAbs = 1000000
  · simp [hm]
  · simp only [if_neg hm]
    omega

/-- Six digits are those of one decimal. -/
theorem SixDigits.eq_of_value {d d' : SixDigits} (h : d.Normal) (h' : d'.Normal) (hv : d.value = d'.value) :
    d = d' := by
  have hexp : ∀ {d d' : SixDigits}, d.Normal → d'.Normal → d.value = d'.value → d'.exponent ≤ d.exponent := by
    intro d d' h h' hv
    by_contra hlt
    obtain ⟨k, hk⟩ := Int.eq_ofNat_of_zero_le (by omega : 0 ≤ d'.exponent - d.exponent - 1)
    have h10 : (10 : ℚ) ^ d.exponent ≠ 0 := zpow_ne_zero _ (by norm_num)
    have hpow : (10 : ℚ) ^ d'.exponent = 10 ^ (k + 1) * 10 ^ d.exponent := by
      rw [show d'.exponent = ((k + 1 : ℕ) : ℤ) + d.exponent by push_cast; omega, zpow_add₀ (by norm_num), zpow_natCast]
    have hmul : (d.mantissa : ℚ) = d'.mantissa * 10 ^ (k + 1) := by
      apply mul_right_cancel₀ h10
      rw [mul_assoc, ← hpow]
      exact hv
    have hnat : d.mantissa = d'.mantissa * 10 ^ (k + 1) := by exact_mod_cast hmul
    have hten : 10 ≤ 10 ^ (k + 1) := Nat.le_self_pow (by omega) 10
    have hmany : d'.mantissa * 10 ≤ d.mantissa := hnat ▸ Nat.mul_le_mul_left _ hten
    have := h.2
    have := h'.1
    omega
  have he : d.exponent = d'.exponent := le_antisymm (hexp h' h hv.symm) (hexp h h' hv)
  have hm : (d.mantissa : ℚ) = d'.mantissa := by
    unfold SixDigits.value at hv
    rw [he] at hv
    exact mul_right_cancel₀ (zpow_ne_zero _ (by norm_num)) hv
  obtain ⟨m, e⟩ := d
  obtain ⟨m', e'⟩ := d'
  obtain rfl : e = e' := he
  obtain rfl : m = m' := by exact_mod_cast hm
  rfl

/-- Digits without the zeros at their end. -/
theorem digits_eq_append (digits : Str) :
    ∃ k, digits = (digits.rdropWhile fun c => c = '0') ++ List.replicate k '0' := by
  refine ⟨(digits.rtakeWhile fun c => c = '0').length, ?_⟩
  have hzeros : List.replicate (digits.rtakeWhile fun c => c = '0').length '0' = digits.rtakeWhile fun c => c = '0' := by
    refine (List.eq_replicate_of_mem fun c hc => ?_).symm
    simpa using List.mem_rtakeWhile_imp hc
  rw [hzeros]
  exact (List.rdropWhile_append_rtakeWhile).symm

/-- **The text of a decimal is read as that decimal.** -/
theorem decimalOf_text {d : SixDigits} (h : d.Normal) : Double.decimalOf d.text = some d.value := by
  obtain ⟨k, hk⟩ := digits_eq_append (Nat.toDigits 10 d.mantissa)
  set kept := (Nat.toDigits 10 d.mantissa).rdropWhile fun c => c = '0' with hkept
  have hvalue : d.mantissa = Nat.ofDigitChars 10 kept 0 * 10 ^ k := by
    have hof := Nat.ofDigitChars_ten_toDigits (n := d.mantissa)
    rw [hk, Nat.ofDigitChars_append, Nat.ofDigitChars_replicate_zero] at hof
    rw [← hof, mul_comm]
  have hne : kept ≠ [] := by
    intro hnil
    rw [hnil, Nat.ofDigitChars_nil, zero_mul] at hvalue
    have := h.1
    omega
  have hdigit : ∀ c ∈ kept, c.isDigit := fun c hc =>
    isDigit_toDigits d.mantissa c (by rw [hk]; exact List.mem_append_left _ hc)
  have hlen : (Nat.toDigits 10 d.mantissa).length = kept.length + k := by
    rw [hk, List.length_append, List.length_replicate]
  unfold SixDigits.text
  simp only [← hkept]
  rw [decimalOf_generalPointed hne hdigit, hlen, SixDigits.value, hvalue]
  congr 1
  have hsplit : ((kept.length + k : ℕ) : ℤ) + d.exponent - kept.length = (k : ℤ) + d.exponent := by
    push_cast
    ring
  rw [hsplit, zpow_add₀ (by norm_num), zpow_natCast]
  push_cast
  ring

/-! ### What the text keeps -/

/-- The size of a float, to six digits. -/
inductive Size : Type where
  | nan
  | inf
  | zero
  | decimal (d : SixDigits)
deriving DecidableEq

/-- The text of a size. -/
def Size.text : Size → Str
  | nan => "nan".toList
  | inf => "inf".toList
  | zero => "0".toList
  | decimal d => d.text

/-- A size with six digits. -/
def Size.Normal : Size → Prop
  | decimal d => d.Normal
  | _ => True

/-- The sign of a float, and its size to six digits. -/
def PyFloat.rounded (x : PyFloat) : Bool × Size :=
  match x.value with
  | .nan => (false, .nan)
  | .posInf => (false, .inf)
  | .negInf => (true, .inf)
  | .fin q _ =>
    if q = 0 then (x.minus, .zero)
    else if q < 0 then (true, .decimal (sixDigits (-q)))
    else (false, .decimal (sixDigits q))

theorem normal_rounded (x : PyFloat) : x.rounded.2.Normal := by
  unfold PyFloat.rounded
  split
  · trivial
  · trivial
  · trivial
  · rename_i q hq heq
    by_cases hzero : q = 0
    · rw [if_pos hzero]
      trivial
    · rw [if_neg hzero]
      by_cases hneg : q < 0
      · rw [if_pos hneg]
        exact normal_sixDigits (by linarith)
      · rw [if_neg hneg]
        exact normal_sixDigits (lt_of_le_of_ne (not_lt.mp hneg) (Ne.symm hzero))

theorem generalText_eq (x : PyFloat) : x.generalText = (if x.rounded.1 then ['-'] else []) ++ x.rounded.2.text := by
  unfold PyFloat.generalText PyFloat.rounded
  split
  · rfl
  · rfl
  · rfl
  · rename_i q hq heq
    by_cases hzero : q = 0
    · simp only [if_pos hzero]
      cases x.minus <;> rfl
    · simp only [if_neg hzero]
      by_cases hneg : q < 0
      · simp only [if_pos hneg]
        rfl
      · simp only [if_neg hneg]
        rfl

/-- What the text of a size is read as. -/
def Size.number : Size → Option ℚ
  | nan => none
  | inf => none
  | zero => some 0
  | decimal d => some d.value

theorem decimalOf_size {z : Size} (h : z.Normal) : Double.decimalOf z.text = z.number := by
  cases z with
  | nan => rfl
  | inf => rfl
  | zero =>
    have hzero := Double.decimalOf_whole (List.cons_ne_nil '0' []) (by decide) stops_nil (by simp)
    rw [List.append_nil] at hzero
    rw [Size.text, Size.number]
    simpa [Double.decimalEnd, Double.scaled, Nat.ofDigitChars] using hzero
  | decimal d => exact decimalOf_text h

theorem SixDigits.value_pos {d : SixDigits} (h : d.Normal) : 0 < d.value := by
  have hm : 0 < d.mantissa := by
    have := h.1
    omega
  exact mul_pos (by exact_mod_cast hm) (zpow_pos (by norm_num) _)

/-- A size has no sign. -/
theorem head_size {z : Size} (h : z.Normal) (s : Str) : z.text ≠ '-' :: s := by
  intro he
  have hread := decimalOf_size h
  cases z with
  | nan => exact absurd (List.cons.inj he).1 (by decide)
  | inf => exact absurd (List.cons.inj he).1 (by decide)
  | zero => exact absurd (List.cons.inj he).1 (by decide)
  | decimal d =>
    rw [he] at hread
    cases hread

/-- Two sizes have two texts. -/
theorem size_eq_of_text {z z' : Size} (h : z.Normal) (h' : z'.Normal) (he : z.text = z'.text) : z = z' := by
  have hnumber : z.number = z'.number := by rw [← decimalOf_size h, ← decimalOf_size h', he]
  have hpos : ∀ {d : SixDigits}, d.Normal → d.value ≠ 0 := fun hd => (SixDigits.value_pos hd).ne'
  cases z <;> cases z' <;> simp only [Size.number, Option.some_inj, reduceCtorEq] at hnumber <;> try rfl
  · exact absurd (congrArg List.head? he) (by decide)
  · exact absurd (congrArg List.head? he) (by decide)
  · exact absurd hnumber.symm (hpos h')
  · exact absurd hnumber (hpos h)
  · rw [SixDigits.eq_of_value h h' hnumber]

/-- **Two floats have one text if and only if they have one sign and one size
to six digits.** -/
theorem generalText_eq_iff {x y : PyFloat} : x.generalText = y.generalText ↔ x.rounded = y.rounded := by
  have hx := normal_rounded x
  have hy := normal_rounded y
  rw [generalText_eq, generalText_eq]
  constructor
  · intro h
    have hsign : x.rounded.1 = y.rounded.1 := by
      by_contra hne
      cases hsx : x.rounded.1 <;> cases hsy : y.rounded.1 <;> rw [hsx, hsy] at h hne
      · exact hne rfl
      · exact head_size hx y.rounded.2.text h
      · exact head_size hy x.rounded.2.text h.symm
      · exact hne rfl
    rw [hsign] at h
    exact Prod.ext hsign (size_eq_of_text hx hy (List.append_cancel_left h))
  · intro h
    rw [h]

/-! ### Characters -/

/-- A character of a number's text. -/
def IsNumberChar (c : Char) : Prop := c.isDigit ∨ c ∈ "naif.e+-".toList

theorem mem_generalPointed {digits : Str} (h : ∀ c ∈ digits, c.isDigit) (point : ℤ) :
    ∀ c ∈ generalPointed digits point, IsNumberChar c := by
  have hzeros : ∀ k, ∀ c ∈ List.replicate k '0', IsNumberChar c := fun k c hc => .inl (List.eq_of_mem_replicate hc ▸ rfl)
  have hdigits : ∀ c ∈ digits, IsNumberChar c := fun c hc => .inl (h c hc)
  have hnatural : ∀ n, ∀ c ∈ Nat.toDigits 10 n, IsNumberChar c := fun n c hc => .inl (isDigit_toDigits n c hc)
  have hexp : ∀ e, ∀ c ∈ exponentText e, IsNumberChar c := by
    intro e c hc
    simp only [exponentText, List.cons_append, List.mem_cons, List.mem_append] at hc
    rcases hc with rfl | hc | hc
    · by_cases he : e < 0
      · rw [if_pos he]
        exact .inr (by decide)
      · rw [if_neg he]
        exact .inr (by decide)
    · by_cases he : e.natAbs < 10 <;> simp [he] at hc
      exact .inl (hc ▸ rfl)
    · exact hnatural _ c hc
  intro c hc
  unfold generalPointed at hc
  split at hc
  · rcases List.mem_append.mp hc with hc | hc
    · rcases List.mem_append.mp hc with hc | hc
      · exact hdigits c (List.mem_of_mem_take hc)
      · by_cases hone : digits.length ≤ 1
        · rw [if_pos hone] at hc
          cases hc
        · rw [if_neg hone] at hc
          rcases List.mem_cons.mp hc with rfl | hc
          · exact .inr (by decide)
          · exact hdigits c (List.mem_of_mem_drop hc)
    · rcases List.mem_cons.mp hc with rfl | hc
      · exact .inr (by decide)
      · exact hexp _ c hc
  · split at hc
    · rcases List.mem_append.mp hc with hc | hc
      · rcases List.mem_append.mp hc with hc | hc
        · rcases List.mem_cons.mp hc with rfl | hc
          · exact .inl rfl
          · obtain rfl : c = '.' := List.mem_singleton.mp hc
            exact .inr (by decide)
        · exact hzeros _ c hc
      · exact hdigits c hc
    · split at hc
      · rcases List.mem_append.mp hc with hc | hc
        · exact hdigits c (List.mem_of_mem_take hc)
        · rcases List.mem_cons.mp hc with rfl | hc
          · exact .inr (by decide)
          · exact hdigits c (List.mem_of_mem_drop hc)
      · rcases List.mem_append.mp hc with hc | hc
        · exact hdigits c hc
        · exact hzeros _ c hc

theorem mem_generalText (x : PyFloat) : ∀ c ∈ x.generalText, IsNumberChar c := by
  intro c hc
  rw [generalText_eq] at hc
  rcases List.mem_append.mp hc with hc | hc
  · cases hs : x.rounded.1 <;> simp [hs] at hc
    rw [hc]
    exact .inr (by decide)
  · cases hz : x.rounded.2 with
    | decimal d =>
      rw [hz] at hc
      have hdigit : ∀ c ∈ (Nat.toDigits 10 d.mantissa).rdropWhile fun c => c = '0', c.isDigit := fun c hc =>
        isDigit_toDigits d.mantissa c ((List.rdropWhile_prefix _ _).subset hc)
      exact mem_generalPointed hdigit _ c hc
    | nan =>
      rw [hz] at hc
      exact .inr ((by decide : Size.nan.text ⊆ "naif.e+-".toList) hc)
    | inf =>
      rw [hz] at hc
      exact .inr ((by decide : Size.inf.text ⊆ "naif.e+-".toList) hc)
    | zero =>
      rw [hz] at hc
      obtain rfl : c = '0' := List.mem_singleton.mp hc
      exact .inl rfl

end Py
end MqResiliency
