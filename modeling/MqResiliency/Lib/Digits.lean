/-
# Digits of Unicode

`isdigit` accepts more than `int` reads: digits that are no decimals, and any
number of dashes where a caller strips them. On a text that is digits after
its dashes, `int` returns if the dashes are one at most, the digits decimals,
and no more than 4300 (`isSome_int_iff`); of decimals alone it is their value
(`int_digits`).
-/
import MqResiliency.Lib.Text

namespace MqResiliency
namespace Py

/-- The value of decimal digits. -/
def digitsValue (s : Str) : ℕ := s.foldl (fun n c => 10 * n + (decimal c).getD 0) 0

/-- A character as `toAscii` has it. -/
def asciiOf (c : Char) : Char :=
  if c.toNat < 127 then c else if isWideSpace c then ' ' else (decimal c).elim '?' Nat.digitChar

/-- A character of a text that `isdigit` accepts. -/
def IsDigitChar (c : Char) : Prop := (decimal c).isSome ∨ ∃ r ∈ digitRanges, r.1 ≤ c.toNat ∧ c.toNat ≤ r.2

theorem isdigit_iff {s : Str} : isdigit s ↔ s ≠ [] ∧ ∀ c ∈ s, IsDigitChar c := by
  simp [isdigit, IsDigitChar, List.any_eq_true]

/-! ### Characters -/

theorem decimal_eq_some {c : Char} {n : ℕ} (h : decimal c = some n) :
    ∃ z ∈ decimalZeros, c.toNat = z + n ∧ n < 10 := by
  obtain ⟨z, hz, rfl⟩ := Option.map_eq_some_iff.mp h
  have hmem := List.mem_of_find?_eq_some hz
  have hrange : z ≤ c.toNat ∧ c.toNat < z + 10 := by simpa using List.find?_some hz
  exact ⟨z, hmem, by omega, by omega⟩

/-- Decimals are no spaces. -/
theorem zeros_not_wide : ∀ z ∈ decimalZeros, ∀ n < 10,
    z + n ∉ [0x85, 0xa0, 0x1680, 0x2028, 0x2029, 0x202f, 0x205f, 0x3000] ∧ ¬ (0x2000 ≤ z + n ∧ z + n ≤ 0x200a) ∧
      (z + n < 128 → z = 48) := by decide +kernel

theorem asciiOf_decimal {c : Char} {n : ℕ} (h : decimal c = some n) : asciiOf c = Nat.digitChar n := by
  obtain ⟨z, hz, hc, hn⟩ := decimal_eq_some h
  obtain ⟨hspaces, hrange, hascii⟩ := zeros_not_wide z hz n hn
  rw [← hc] at hspaces hrange hascii
  unfold asciiOf
  by_cases hlow : c.toNat < 127
  · rw [if_pos hlow]
    have hz := hascii (by omega)
    apply char_eq_of_toNat
    rw [Nat.toNat_digitChar_of_lt_ten hn]
    omega
  · have hwide : isWideSpace c = false := by
      simp only [isWideSpace, decide_eq_false_iff_not, not_or]
      exact ⟨hspaces, hrange⟩
    rw [if_neg hlow, hwide, h]
    rfl

/-- The digits that are no decimals are no spaces. -/
theorem ranges_not_wide : ∀ r ∈ digitRanges, 127 < r.1 ∧
    (∀ s ∈ [0x85, 0xa0, 0x1680, 0x2028, 0x2029, 0x202f, 0x205f, 0x3000], ¬ (r.1 ≤ s ∧ s ≤ r.2)) ∧
      ¬ (r.1 ≤ 0x200a ∧ 0x2000 ≤ r.2) := by decide +kernel

theorem asciiOf_of_not_decimal {c : Char} (h : IsDigitChar c) (hnot : decimal c = none) : asciiOf c = '?' := by
  obtain ⟨r, hr, hlo, hhi⟩ := h.resolve_left (by simp [hnot])
  obtain ⟨hlow, hspaces, hrange⟩ := ranges_not_wide r hr
  have hwide : isWideSpace c = false := by
    simp only [isWideSpace, decide_eq_false_iff_not, not_or]
    exact ⟨fun hmem => hspaces _ hmem ⟨hlo, hhi⟩, fun hc => hrange ⟨by omega, by omega⟩⟩
  unfold asciiOf
  rw [if_neg (by omega), hwide, hnot]
  rfl

/-- What a digit becomes. -/
theorem asciiOf_digit {c : Char} (h : IsDigitChar c) :
    ((decimal c).isSome ∧ (asciiOf c).isDigit) ∨ (decimal c = none ∧ asciiOf c = '?') := by
  cases hd : decimal c with
  | none => exact .inr ⟨rfl, asciiOf_of_not_decimal h hd⟩
  | some n =>
    obtain ⟨z, hz, hc, hn⟩ := decimal_eq_some hd
    rw [asciiOf_decimal hd]
    exact .inl ⟨rfl, by rw [Nat.isDigit_digitChar]; exact decide_eq_true hn⟩

theorem toNat_ne_of_digit {c : Char} (h : IsDigitChar c) : c.toNat ≠ 127 := by
  rcases h with h | ⟨r, hr, hlo, -⟩
  · obtain ⟨n, hn⟩ := Option.isSome_iff_exists.mp h
    obtain ⟨z, hz, hc, hlt⟩ := decimal_eq_some hn
    have hall := (zeros_not_wide z hz n hlt).2.2
    omega
  · have := (ranges_not_wide r hr).1
    omega

/-! ### Texts -/

theorem toAscii_eq_map {s : Str} (h : ∀ c ∈ s, c.toNat ≠ 127) : toAscii s = s.map asciiOf := by
  unfold toAscii
  split
  · rename_i hall
    have hself : ∀ c ∈ s, asciiOf c = c := by
      intro c hc
      have hlt : c.toNat < 128 := by simpa using List.all_eq_true.mp hall c hc
      have hne := h c hc
      exact if_pos (by omega)
    rw [List.map_congr_left hself, List.map_id']
  · rfl

theorem strip_eq_self {s : Str} (h : ∀ c ∈ s, isAsciiSpace c = false) : strip s = s := by
  unfold strip
  cases s with
  | nil => rfl
  | cons c s =>
    have hc : isAsciiSpace c = false := h c List.mem_cons_self
    rw [List.dropWhile_cons_of_neg (by simp [hc]), List.rdropWhile_eq_self_iff]
    intro hl
    simpa using h _ (List.getLast_mem hl)

theorem isAsciiSpace_asciiOf {c : Char} (h : IsDigitChar c) : isAsciiSpace (asciiOf c) = false := by
  rcases asciiOf_digit h with ⟨-, hdigit⟩ | ⟨-, heq⟩
  · exact (isPlain_of_isDigit hdigit).2
  · rw [heq]
    decide

theorem isSome_digitRun : ∀ {s : Str} (prev : Bool), (∀ c ∈ s, IsDigitChar c) →
    ((digitRun prev (s.map asciiOf)).isSome ↔ (∀ c ∈ s, (decimal c).isSome) ∧ (prev = true ∨ s ≠ []))
  | [], prev, _ => by cases prev <;> simp [digitRun]
  | c :: s, prev, h => by
    have hrest := isSome_digitRun (s := s) true fun d hd => h d (List.mem_cons_of_mem c hd)
    rw [List.map_cons]
    rcases asciiOf_digit (h c List.mem_cons_self) with ⟨hc, hdigit⟩ | ⟨hc, heq⟩
    · have hunder : asciiOf c ≠ '_' := by
        intro hu
        rw [hu] at hdigit
        exact absurd hdigit (by decide)
      rw [digitRun, if_neg hunder, if_pos hdigit, Option.isSome_map, hrest]
      simp [hc]
    · rw [heq, digitRun, if_neg (by decide), if_neg (by decide)]
      simp [hc]

/-- Digits are read if they are decimals, and not too many. -/
theorem isSome_natOf {s : Str} (hne : s ≠ []) (h : ∀ c ∈ s, IsDigitChar c) :
    (natOf (s.map asciiOf)).isSome ↔ (∀ c ∈ s, (decimal c).isSome) ∧ s.length ≤ maxStrDigits := by
  have hrun := isSome_digitRun false h
  unfold natOf
  cases hdigits : digitRun false (s.map asciiOf) with
  | none =>
    rw [hdigits] at hrun
    have hnot : ¬ ∀ c ∈ s, (decimal c).isSome := by simpa [hne] using hrun
    simp [hnot]
  | some ds =>
    rw [hdigits] at hrun
    have hall : ∀ c ∈ s, (decimal c).isSome := by simpa [hne] using hrun
    have hdigit : ∀ c ∈ s.map asciiOf, c.isDigit := by
      intro c hc
      obtain ⟨d, hd, rfl⟩ := List.mem_map.mp hc
      rcases asciiOf_digit (h d hd) with ⟨-, hdigit⟩ | ⟨hnone, -⟩
      · exact hdigit
      · exact absurd (hall d hd) (by simp [hnone])
    have hself := digitRun_of_isDigit _ false hdigit (.inr (by simpa using hne))
    obtain rfl : ds = s.map asciiOf := Option.some.inj (hdigits.symm.trans hself)
    rw [Option.bind_some, List.length_map]
    by_cases hlen : s.length ≤ maxStrDigits
    · simpa [hlen] using hall
    · simp [hlen]

theorem toAscii_dashes (dashes : ℕ) {s : Str} (h : ∀ c ∈ s, IsDigitChar c) :
    strip (toAscii (List.replicate dashes '-' ++ s)) = List.replicate dashes '-' ++ s.map asciiOf := by
  have hascii : toAscii (List.replicate dashes '-' ++ s) = List.replicate dashes '-' ++ s.map asciiOf := by
    have hdel : ∀ c ∈ List.replicate dashes '-' ++ s, c.toNat ≠ 127 := by
      intro c hc
      rcases List.mem_append.mp hc with hc | hc
      · rw [List.eq_of_mem_replicate hc]
        decide
      · exact toNat_ne_of_digit (h c hc)
    rw [toAscii_eq_map hdel, List.map_append, List.map_replicate]
    rfl
  rw [hascii]
  refine strip_eq_self fun c hc => ?_
  rcases List.mem_append.mp hc with hc | hc
  · rw [List.eq_of_mem_replicate hc]
    rfl
  · obtain ⟨d, hd, rfl⟩ := List.mem_map.mp hc
    exact isAsciiSpace_asciiOf (h d hd)

/-- Without a sign. -/
theorem int_of_unsigned {s t : Str} (h : strip (toAscii s) = t) (hsign : ∀ c u, t = c :: u → c ≠ '-' ∧ c ≠ '+') :
    int s = (natOf t).map (↑) := by
  rw [int, h]
  split
  · exact absurd rfl (hsign _ _ rfl).1
  · exact absurd rfl (hsign _ _ rfl).2
  · rfl

theorem digit_ne_sign {s : Str} (h : ∀ c ∈ s, IsDigitChar c) : ∀ c u, s.map asciiOf = c :: u → c ≠ '-' ∧ c ≠ '+' := by
  intro c u hcu
  cases s with
  | nil => cases hcu
  | cons d s =>
    obtain rfl : asciiOf d = c := (List.cons.inj hcu).1
    rcases asciiOf_digit (h d List.mem_cons_self) with ⟨-, hdigit⟩ | ⟨-, heq⟩
    · constructor <;>
      · intro hsign
        rw [hsign] at hdigit
        exact absurd hdigit (by decide)
    · rw [heq]
      decide

/-- **What `int` reads of dashes and digits.** -/
theorem isSome_int_iff (dashes : ℕ) {s : Str} (hne : s ≠ []) (h : ∀ c ∈ s, IsDigitChar c) :
    (int (List.replicate dashes '-' ++ s)).isSome ↔
      dashes ≤ 1 ∧ (∀ c ∈ s, (decimal c).isSome) ∧ s.length ≤ maxStrDigits := by
  have hstrip := toAscii_dashes dashes h
  rw [← isSome_natOf hne h]
  match dashes with
  | 0 =>
    rw [int_of_unsigned hstrip (digit_ne_sign h), Option.isSome_map]
    simp
  | 1 =>
    have hone : strip (toAscii ('-' :: s)) = '-' :: s.map asciiOf := hstrip
    have hint : (int ('-' :: s)).isSome = (natOf (s.map asciiOf)).isSome := by
      rw [int, hone]
      cases hn : natOf (s.map asciiOf) <;> simp [hn]
    have hdash : List.replicate 1 '-' ++ s = '-' :: s := rfl
    rw [hdash, hint]
    simp
  | dashes + 2 =>
    -- after the first dash there is no digit
    have hint : int (List.replicate (dashes + 2) '-' ++ s) = none := by
      rw [int, hstrip]
      rfl
    rw [hint]
    simp

/-- With a dash nothing is positive. -/
theorem int_dash_nonpos {s : Str} {n : ℤ} (h : int ('-' :: s) = some n) (hs : ∀ c ∈ s, IsDigitChar c) : n ≤ 0 := by
  have hstrip : strip (toAscii ('-' :: s)) = '-' :: s.map asciiOf := toAscii_dashes 1 hs
  rw [int, hstrip] at h
  cases hn : natOf (s.map asciiOf) with
  | none => simp [hn] at h
  | some m =>
    obtain rfl : -(m : ℤ) = n := by simpa [hn] using h
    omega

/-- **Decimals are read as their value.** -/
theorem int_digits {s : Str} (hne : s ≠ []) (h : ∀ c ∈ s, (decimal c).isSome) (hlen : s.length ≤ maxStrDigits) :
    int s = some (digitsValue s : ℤ) := by
  have hdigits : ∀ c ∈ s, IsDigitChar c := fun c hc => .inl (h c hc)
  have hvalue : ∀ (s : Str) (n : ℕ), (∀ c ∈ s, (decimal c).isSome) →
      Nat.ofDigitChars 10 (s.map asciiOf) n = s.foldl (fun n c => 10 * n + (decimal c).getD 0) n := by
    intro s
    induction s with
    | nil => exact fun _ _ => rfl
    | cons c s ih =>
      intro n hs
      obtain ⟨k, hk⟩ := Option.isSome_iff_exists.mp (hs c List.mem_cons_self)
      obtain ⟨-, -, -, hlt⟩ := decimal_eq_some hk
      have hzero : '0'.toNat = 48 := rfl
      rw [List.map_cons, Nat.ofDigitChars_cons, List.foldl_cons, asciiOf_decimal hk,
        Nat.toNat_digitChar_of_lt_ten hlt, hzero, hk, Option.getD_some, Nat.add_sub_cancel_left,
        ih _ fun d hd => hs d (List.mem_cons_of_mem c hd)]
  have hstrip : strip (toAscii s) = s.map asciiOf := by simpa using toAscii_dashes 0 hdigits
  have hisDigit : ∀ c ∈ s.map asciiOf, c.isDigit := by
    intro c hc
    obtain ⟨d, hd, rfl⟩ := List.mem_map.mp hc
    rcases asciiOf_digit (hdigits d hd) with ⟨-, hdigit⟩ | ⟨hnone, -⟩
    · exact hdigit
    · exact absurd (h d hd) (by simp [hnone])
  have hnat : natOf (s.map asciiOf) = some (digitsValue s) := by
    rw [natOf, digitRun_of_isDigit _ false hisDigit (.inr (by simpa using hne)), Option.bind_some, List.length_map,
      if_pos hlen, hvalue s 0 h]
    rfl
  rw [int_of_unsigned hstrip (digit_ne_sign hdigits), hnat]
  rfl

end Py
end MqResiliency
