/-
# Decimal texts of integers

`str` writes an integer in one way, without blanks, sign `+`, leading zeros or
underscores (`isDecimal`). `int` reads more than that. Of the texts that it
reads as an integer, the one that `str` writes is the decimal one
(`str_eq_some_iff`).
-/
import MqResiliency.Lib.JsonLaw

namespace MqResiliency
namespace Py

/-- Digits without a leading zero. -/
def isNumeral : Str → Bool
  | [] => false
  | c :: s => c ≠ '0' ∧ (c :: s).all Char.isDigit

/-- A text that `str` gives an integer, of any length. -/
def isDecimal : Str → Bool
  | ['0'] => true
  | '-' :: s => isNumeral s
  | s => isNumeral s

theorem isNumeral_toDigits {n : ℕ} (hn : 0 < n) : isNumeral (Nat.toDigits 10 n) := by
  obtain ⟨d, ds, h⟩ := List.exists_cons_of_ne_nil (toDigits_ne_nil n)
  have hall : (Nat.toDigits 10 n).all Char.isDigit := List.all_eq_true.mpr (isDigit_toDigits n)
  rw [h] at hall ⊢
  rw [isNumeral, decide_eq_true_eq]
  exact ⟨head_toDigits hn h, hall⟩

theorem isDecimal_of_str {n : ℤ} {s : Str} (h : str n = some s) : isDecimal s := by
  simp only [str] at h
  split at h
  · obtain rfl := Option.some.inj h
    by_cases hzero : n = 0
    · subst hzero
      rfl
    · have hnum := isNumeral_toDigits (n := n.natAbs) (by omega)
      by_cases hneg : n < 0
      · rw [if_pos hneg]
        exact hnum
      · rw [if_neg hneg]
        unfold isDecimal
        split
        · rfl
        · rename_i s hs
          rw [hs] at hnum
          exact absurd hnum (by simp [isNumeral])
        · exact hnum
  · cases h

theorem toNat_of_isDigit {c : Char} (h : c.isDigit) : 48 ≤ c.toNat ∧ c.toNat ≤ 57 := by
  simp only [Char.isDigit, Bool.and_eq_true, decide_eq_true_eq] at h
  exact h

theorem toDigits_of_isDigit {c : Char} (h : c.isDigit) : Nat.toDigits 10 (c.toNat - '0'.toNat) = [c] := by
  obtain ⟨hlo, hhi⟩ := toNat_of_isDigit h
  have hzero : '0'.toNat = 48 := rfl
  have hall : ∀ k < 10, Nat.toDigits 10 k = [Char.ofNat (48 + k)] := by decide
  rw [hzero, hall _ (by omega), show 48 + (c.toNat - 48) = c.toNat by omega, Char.ofNat_toNat]

/-- Digits are appended to a number's. -/
theorem toDigits_ofDigitChars : ∀ {s : Str} {n : ℕ}, 0 < n → (∀ c ∈ s, c.isDigit) →
    Nat.toDigits 10 (Nat.ofDigitChars 10 s n) = Nat.toDigits 10 n ++ s
  | [], n, _, _ => by simp
  | c :: s, n, hn, h => by
    obtain ⟨hlo, hhi⟩ := toNat_of_isDigit (h c List.mem_cons_self)
    have hzero : '0'.toNat = 48 := rfl
    have ih := toDigits_ofDigitChars (s := s) (n := 10 * n + (c.toNat - '0'.toNat)) (by omega)
      fun d hd => h d (List.mem_cons_of_mem c hd)
    rw [Nat.ofDigitChars_cons, ih, ← Nat.toDigits_append_toDigits (by omega) hn (by omega),
      toDigits_of_isDigit (h c List.mem_cons_self), List.append_assoc]
    rfl

/-- Digits without a leading zero are the digits of their number. -/
theorem toDigits_of_isNumeral {s : Str} (h : isNumeral s) :
    Nat.toDigits 10 (Nat.ofDigitChars 10 s 0) = s ∧ 0 < Nat.ofDigitChars 10 s 0 := by
  cases s with
  | nil => exact absurd h (by simp [isNumeral])
  | cons c s =>
    rw [isNumeral, decide_eq_true_eq, List.all_eq_true] at h
    obtain ⟨hc, hall⟩ := h
    obtain ⟨hlo, hhi⟩ := toNat_of_isDigit (hall c List.mem_cons_self)
    have hzero : '0'.toNat = 48 := rfl
    have hpos : 0 < c.toNat - '0'.toNat := by
      have hne : c.toNat ≠ 48 := fun h48 => hc (char_eq_of_toNat h48)
      omega
    have hdigits : Nat.toDigits 10 (Nat.ofDigitChars 10 (c :: s) 0) = c :: s := by
      rw [Nat.ofDigitChars_cons, Nat.mul_zero, Nat.zero_add,
        toDigits_ofDigitChars hpos fun d hd => hall d (List.mem_cons_of_mem c hd),
        toDigits_of_isDigit (hall c List.mem_cons_self)]
      rfl
    refine ⟨hdigits, Nat.pos_of_ne_zero fun h0 => ?_⟩
    rw [h0] at hdigits
    have hhead : '0' = c := (List.cons.inj hdigits).1
    exact hc hhead.symm

/-- What `natOf` reads of digits. -/
theorem natOf_of_isDigit {s : Str} (hne : s ≠ []) (h : ∀ c ∈ s, c.isDigit) {n : ℕ} (hn : natOf s = some n) :
    s.length ≤ maxStrDigits ∧ n = Nat.ofDigitChars 10 s 0 := by
  rw [natOf, digitRun_of_isDigit s false h (.inr hne), Option.bind_some] at hn
  split at hn
  · rename_i hlen
    exact ⟨hlen, (Option.some.inj hn).symm⟩
  · cases hn

theorem isDigit_of_isNumeral {s : Str} (h : isNumeral s) : s ≠ [] ∧ ∀ c ∈ s, c.isDigit := by
  cases s with
  | nil => exact absurd h (by simp [isNumeral])
  | cons c s =>
    rw [isNumeral, decide_eq_true_eq, List.all_eq_true] at h
    exact ⟨List.cons_ne_nil c s, h.2⟩

/-- A numeral that is read is written again. -/
theorem str_of_isNumeral {s : Str} (h : isNumeral s) {n : ℕ} (hn : natOf s = some n) :
    0 < n ∧ s.length ≤ maxStrDigits ∧ Nat.toDigits 10 n = s := by
  obtain ⟨hne, hall⟩ := isDigit_of_isNumeral h
  obtain ⟨hlen, rfl⟩ := natOf_of_isDigit hne hall hn
  obtain ⟨hdigits, hpos⟩ := toDigits_of_isNumeral h
  exact ⟨hpos, hlen, hdigits⟩

/-- **Of what `int` reads, the decimal text is what `str` writes.** -/
theorem str_eq_some_iff {n : ℤ} {s : Str} (h : int s = some n) : str n = some s ↔ isDecimal s := by
  refine ⟨isDecimal_of_str, fun hdec => ?_⟩
  unfold isDecimal at hdec
  split at hdec
  · obtain rfl : 0 = n := by simpa [show int ['0'] = some 0 from rfl] using h
    rfl
  · rename_i t
    have hplain : ∀ c ∈ '-' :: t, isPlain c := by
      intro c hc
      rcases List.mem_cons.mp hc with rfl | hc
      · exact ⟨by decide, by decide⟩
      · exact isPlain_of_isDigit ((isDigit_of_isNumeral hdec).2 c hc)
    rw [int, strip_toAscii hplain] at h
    cases hm : natOf t with
    | none => simp [hm] at h
    | some m =>
      obtain rfl : -(m : ℤ) = n := by simpa [hm] using h
      obtain ⟨hpos, hlen, hdigits⟩ := str_of_isNumeral hdec hm
      have hneg : -(m : ℤ) < 0 := by omega
      simp only [str, Int.natAbs_neg, Int.natAbs_natCast, hneg, if_true, hlen, hdigits]
  · obtain ⟨hne, hall⟩ := isDigit_of_isNumeral hdec
    rw [int, strip_toAscii fun c hc => isPlain_of_isDigit (hall c hc)] at h
    split at h
    · exact absurd (hall '-' List.mem_cons_self) (by decide)
    · exact absurd (hall '+' List.mem_cons_self) (by decide)
    · cases hm : natOf s with
      | none => simp [hm] at h
      | some m =>
        obtain rfl : (m : ℤ) = n := by simpa [hm] using h
        obtain ⟨hpos, hlen, hdigits⟩ := str_of_isNumeral hdec hm
        have hnonneg : ¬ (m : ℤ) < 0 := by omega
        simp only [str, Int.natAbs_natCast, hnonneg, if_false, hdigits, hlen, if_true]

end Py
end MqResiliency
