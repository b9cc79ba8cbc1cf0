/-
# Python text

The part of Python's `str`, `bytes` and `int` that wire formats rest on, over
lists of characters and of bytes: UTF-8 (`encode`, `decode`), `bytes.find`
(`find`), `str.split` with a bound (`split`), and the decimal texts of
integers with the interpreter's limit of 4300 digits (`str`, `int`).

Key theorems: `decode_encode`, `find_append`, `split_cons`, `int_str`.
-/
import Mathlib.Data.List.DropRight
import Mathlib.Data.List.TakeDrop

namespace MqResiliency
namespace Py

/-- A `str`, by code points (without lone surrogates). -/
abbrev Str : Type := List Char

/-- A `bytes`. -/
abbrev Bytes : Type := List UInt8

instance (s : Str) (ss : List Str) : Decidable (s ∈ ss) := List.instDecidableMemOfLawfulBEq s ss

instance (p : Char → Prop) [DecidablePred p] (s : Str) : Decidable (∀ c ∈ s, p c) := List.decidableBAll p s

/-! ### UTF-8 -/

/-- `s.encode("utf-8")`. -/
def encode (s : Str) : Bytes := s.flatMap String.utf8EncodeChar

/-- `b.decode("utf-8")`, `none` where Python raises `UnicodeDecodeError`. -/
def decode (b : Bytes) : Option Str := b.toByteArray.utf8Decode?.map Array.toList

@[simp] theorem encode_append (s t : Str) : encode (s ++ t) = encode s ++ encode t :=
  List.flatMap_append

@[simp] theorem decode_encode (s : Str) : decode (encode s) = some s := by
  have h : (encode s).toByteArray.utf8Decode? = some s.toArray := List.utf8Decode?_utf8Encode
  simp [decode, h]

/-- `s.ljust(n)`. -/
def ljust (n : ℕ) (s : Str) : Str := s ++ List.replicate (n - s.length) ' '

/-- One byte of a `bytes` literal that is quoted with `quote`. -/
def escape (quote b : UInt8) : Str :=
  if b = quote ∨ b = 92 then ['\\', Char.ofNat b.toNat]
  else if b = 9 then "\\t".toList
  else if b = 10 then "\\n".toList
  else if b = 13 then "\\r".toList
  else if b < 32 ∨ 127 ≤ b then
    "\\x".toList ++ [Nat.digitChar (b.toNat / 16), Nat.digitChar (b.toNat % 16)]
  else [Char.ofNat b.toNat]

/-- `repr(b)` of a `bytes`. -/
def bytesRepr (b : Bytes) : Str :=
  let quote : UInt8 := if 39 ∈ b ∧ 34 ∉ b then 34 else 39
  'b' :: Char.ofNat quote.toNat :: b.flatMap (escape quote) ++ [Char.ofNat quote.toNat]

/-! ### Searching and splitting -/

/-- `xs.find(needle)`: where `needle` starts first. -/
def find {α : Type} [DecidableEq α] (needle : List α) : List α → Option ℕ
  | [] => if needle = [] then some 0 else none
  | x :: xs =>
    if needle.isPrefixOf (x :: xs) then some 0 else (find needle xs).map (· + 1)

/-- `sub in s`. -/
def contains (s sub : Str) : Bool := (find sub s).isSome

/-- The lines of a text, as `grep` reads them. -/
def lines (s : Str) : List Str :=
  let ls := s.splitOn '\n'
  if ls.getLast? = some [] then ls.dropLast else ls

/-- What stands before a needle does not hide it, if it lacks its first element. -/
theorem find_append {α : Type} [DecidableEq α] (a : α) (needle r : List α) :
    ∀ l : List α, a ∉ l → find (a :: needle) (l ++ (a :: needle ++ r)) = some l.length
  | [], _ => by simp [find]
  | x :: l, h => by
    obtain ⟨hx, hl⟩ : a ≠ x ∧ a ∉ l := by simpa using h
    have hp : (a :: needle).isPrefixOf (x :: (l ++ (a :: needle ++ r))) = false := by
      simp [List.isPrefixOf, hx]
    simp only [List.cons_append] at hp ⊢
    rw [find, if_neg (by simp [hp])]
    have ih := find_append a needle r l hl
    rw [List.cons_append] at ih
    simp [ih]

/-- `s.split(sep, n)`. -/
def split (sep : Char) : ℕ → Str → List Str
  | 0, s => [s]
  | n + 1, s =>
    match s.span (· ≠ sep) with
    | (a, []) => [a]
    | (a, _ :: b) => a :: split sep n b

theorem span_append (sep : Char) (s : Str) :
    ∀ a : Str, sep ∉ a → (a ++ sep :: s).span (· ≠ sep) = (a, sep :: s) := by
  intro a ha
  have hp : ∀ c ∈ a, decide (c ≠ sep) = true := fun c hc => by
    simpa using fun h : c = sep => ha (h ▸ hc)
  rw [List.span_eq_takeWhile_dropWhile, List.takeWhile_append_of_pos hp,
    List.dropWhile_append_of_pos hp]
  simp

/-- A field without the separator is split off whole. -/
theorem split_cons (sep : Char) (n : ℕ) (s : Str) {a : Str} (ha : sep ∉ a) :
    split sep (n + 1) (a ++ sep :: s) = a :: split sep n s := by
  rw [split, span_append sep s a ha]

/-- The needle is found where it stands, if it starts nowhere before. -/
theorem find_append_of_not {α : Type} [DecidableEq α] (needle r : List α) : ∀ l : List α,
    (∀ l₁ l₂, l = l₁ ++ l₂ → l₂ ≠ [] → ¬ needle <+: l₂ ++ (needle ++ r)) →
      find needle (l ++ (needle ++ r)) = some l.length
  | [], _ => by
    cases hr : needle ++ r with
    | nil =>
      have hnil : needle = [] := (List.append_eq_nil_iff.mp hr).1
      simp [find, hnil]
    | cons x xs =>
      have hpre : needle.isPrefixOf (x :: xs) = true := List.isPrefixOf_iff_prefix.mpr (hr ▸ List.prefix_append _ _)
      rw [List.nil_append, find, if_pos hpre]
      rfl
  | x :: l, h => by
    have hhere : ¬ needle.isPrefixOf (x :: (l ++ (needle ++ r))) = true := fun hpre =>
      h [] (x :: l) rfl (by simp) (List.isPrefixOf_iff_prefix.mp hpre)
    have ih := find_append_of_not needle r l fun l₁ l₂ hl hne => h (x :: l₁) l₂ (by rw [hl]; rfl) hne
    rw [List.cons_append, find, if_neg hhere, ih]
    rfl

/-- Where a needle is found, it stands. -/
theorem drop_of_find {α : Type} [DecidableEq α] {needle : List α} : ∀ {xs : List α} {i : ℕ},
    find needle xs = some i → ∃ r, xs.drop i = needle ++ r
  | [], i, h => by
    simp only [find, Option.ite_none_right_eq_some] at h
    exact ⟨[], by simp [h.1]⟩
  | x :: xs, i, h => by
    rw [find] at h
    split at h
    · rename_i hpre
      obtain ⟨r, hr⟩ := List.isPrefixOf_iff_prefix.mp hpre
      obtain rfl := Option.some.inj h
      exact ⟨r, hr.symm⟩
    · obtain ⟨j, hj, rfl⟩ := Option.map_eq_some_iff.mp h
      obtain ⟨r, hr⟩ : ∃ r, xs.drop _ = needle ++ r := drop_of_find hj
      exact ⟨r, hr⟩

/-- Between the marks there are none. -/
theorem not_mem_of_mem_splitOn {ch : Char} : ∀ {s part : Str}, part ∈ s.splitOn ch → ch ∉ part
  | [], part, h => by
    obtain rfl : part = [] := by simpa using h
    simp
  | x :: s, part, h => by
    rw [List.splitOn_cons_eq_if_modifyHead] at h
    split at h
    · rcases List.mem_cons.mp h with rfl | h
      · simp
      · exact not_mem_of_mem_splitOn h
    · rename_i hx
      obtain ⟨first, rest, hsplit⟩ := List.exists_cons_of_ne_nil (List.splitOn_ne_nil ch s)
      rw [hsplit, List.modifyHead_cons, List.mem_cons] at h
      have hx : ch ≠ x := fun heq => hx (by simp [heq])
      rcases h with rfl | h
      · have hfirst : ch ∉ first := not_mem_of_mem_splitOn (hsplit ▸ List.mem_cons_self)
        simp [hx, hfirst]
      · exact not_mem_of_mem_splitOn (hsplit ▸ List.mem_cons_of_mem _ h)

/-! ### ASCII in UTF-8 -/

theorem utf8EncodeChar_ascii {c : Char} (h : c.toNat < 128) : String.utf8EncodeChar c = [UInt8.ofNat c.toNat] := by
  have hle : c.val.toNat ≤ 127 := Nat.le_of_lt_succ h
  unfold String.utf8EncodeChar
  exact if_pos hle

/-- A byte of ASCII is a whole character. -/
theorem utf8EncodeChar_of_mem {c : Char} {b : UInt8} (hb : b ∈ String.utf8EncodeChar c) (h : b.toNat < 128) :
    c.toNat = b.toNat := by
  unfold String.utf8EncodeChar at hb
  have hmod : ∀ n : ℕ, (UInt8.ofNat n).toNat = n % 256 := fun n => UInt8.toNat_ofNat'
  dsimp only at hb
  split at hb
  · rename_i hle
    obtain rfl := List.mem_singleton.mp hb
    have hval : c.toNat ≤ 127 := hle
    rw [hmod]
    exact (Nat.mod_eq_of_lt (by omega)).symm
  · split at hb
    · simp only [List.mem_cons, List.not_mem_nil, or_false] at hb
      rcases hb with rfl | rfl <;> rw [hmod] at h <;> omega
    · split at hb
      · simp only [List.mem_cons, List.not_mem_nil, or_false] at hb
        rcases hb with rfl | rfl | rfl <;> rw [hmod] at h <;> omega
      · rename_i h2 h3
        simp only [List.mem_cons, List.not_mem_nil, or_false] at hb
        rcases hb with rfl | rfl | rfl | rfl <;> rw [hmod] at h <;> omega

/-- Where the letters and digits of ASCII are. -/
theorem isAlphanum_range {c : Char} (h : c.isAlphanum) : 48 ≤ c.toNat ∧ c.toNat ≤ 122 := by
  have hparts : ((c.isUpper || c.isLower) || c.isDigit) = true := h
  rcases Bool.or_eq_true_iff.mp hparts with hletter | hdigit
  · rcases Bool.or_eq_true_iff.mp hletter with hupper | hlower
    · have hrange : 65 ≤ c.val ∧ c.val ≤ 90 := of_decide_eq_true hupper
      exact ⟨(by decide : 48 ≤ 65).trans hrange.1, le_trans hrange.2 (by decide)⟩
    · obtain ⟨hlow, hhigh⟩ := (Bool.and_eq_true _ _).mp hlower
      exact ⟨(by decide : 48 ≤ 97).trans (of_decide_eq_true hlow), of_decide_eq_true hhigh⟩
  · obtain ⟨hlow, hhigh⟩ := (Bool.and_eq_true _ _).mp hdigit
    exact ⟨of_decide_eq_true hlow, le_trans (of_decide_eq_true hhigh) (by decide)⟩

theorem char_eq_of_toNat {c d : Char} (h : c.toNat = d.toNat) : c = d :=
  Char.ext (UInt32.toNat_inj.mp h)

/-- Before a byte of ASCII a character ends. -/
theorem encode_eq_append_cons {b : UInt8} (hb : b.toNat < 128) : ∀ {s : Str} {l₁ l₂ : Bytes},
    encode s = l₁ ++ b :: l₂ → ∃ s₁ c s₂, s = s₁ ++ c :: s₂ ∧ encode s₁ = l₁ ∧ c.toNat = b.toNat ∧ encode s₂ = l₂
  | [], l₁, l₂, h => absurd h (by simp [encode])
  | c :: s, l₁, l₂, h => by
    have hcons : encode (c :: s) = String.utf8EncodeChar c ++ encode s := List.flatMap_cons
    rw [hcons] at h
    rcases List.append_eq_append_iff.mp h with ⟨t, ht, hrest⟩ | ⟨t, ht, hrest⟩
    · obtain ⟨s₁, c', s₂, hs, h₁, hc, h₂⟩ := encode_eq_append_cons hb hrest
      refine ⟨c :: s₁, c', s₂, by rw [hs]; rfl, ?_, hc, h₂⟩
      rw [ht, ← h₁]
      exact List.flatMap_cons
    · cases t with
      | nil =>
        have hrest : encode s = [] ++ b :: l₂ := hrest.symm
        obtain ⟨s₁, c', s₂, hs, h₁, hc, h₂⟩ := encode_eq_append_cons hb hrest
        refine ⟨c :: s₁, c', s₂, by rw [hs]; rfl, ?_, hc, h₂⟩
        have hl : l₁ = String.utf8EncodeChar c := by simpa using ht.symm
        have hs₁ : encode (c :: s₁) = String.utf8EncodeChar c ++ encode s₁ := List.flatMap_cons
        rw [hs₁, h₁, hl, List.append_nil]
      | cons b' t =>
        obtain ⟨rfl, htail⟩ : b = b' ∧ l₂ = t ++ encode s := by simpa using hrest
        have hmem : b ∈ String.utf8EncodeChar c := by
          rw [ht]
          simp
        have hc := utf8EncodeChar_of_mem hmem hb
        have hone : String.utf8EncodeChar c = [UInt8.ofNat c.toNat] := utf8EncodeChar_ascii (hc ▸ hb)
        have hlen : l₁ = [] ∧ t = [] := by
          have hcount := congrArg List.length (ht.symm.trans hone)
          simp only [List.length_append, List.length_cons, List.length_nil] at hcount
          exact ⟨List.length_eq_zero_iff.mp (by omega), List.length_eq_zero_iff.mp (by omega)⟩
        refine ⟨[], c, s, rfl, hlen.1.symm, hc, ?_⟩
        rw [htail, hlen.2]
        rfl

/-- A text of ASCII stands at the start of bytes as it stands in their text, up
to the end of it. -/
theorem prefix_encode : ∀ {t s : Str} {r : Bytes}, (∀ c ∈ t, c.toNat < 128) → encode t <+: encode s ++ r →
    t <+: s ∨ ∃ t₂, t = s ++ t₂ ∧ t₂ ≠ [] ∧ encode t₂ <+: r
  | [], s, r, _, _ => .inl List.nil_prefix
  | c :: t, [], r, _, h => .inr ⟨c :: t, rfl, by simp, h⟩
  | c :: t, d :: s, r, ht, h => by
    have hc := ht c List.mem_cons_self
    have hct : encode (c :: t) = UInt8.ofNat c.toNat :: encode t := by
      have hcons : encode (c :: t) = String.utf8EncodeChar c ++ encode t := List.flatMap_cons
      rw [hcons, utf8EncodeChar_ascii hc]
      rfl
    have hds : encode (d :: s) = String.utf8EncodeChar d ++ encode s := List.flatMap_cons
    have hbyte : (UInt8.ofNat c.toNat).toNat = c.toNat := by
      rw [UInt8.toNat_ofNat']
      exact Nat.mod_eq_of_lt (by omega)
    rw [hct, hds] at h
    obtain ⟨b, bs, hd⟩ := List.exists_cons_of_ne_nil (String.utf8EncodeChar_ne_nil (c := d))
    rw [hd, List.cons_append, List.cons_append, List.cons_prefix_cons] at h
    obtain ⟨rfl, hrest⟩ := h
    have hmem : UInt8.ofNat c.toNat ∈ String.utf8EncodeChar d := hd ▸ List.mem_cons_self
    have hdc : d = c := char_eq_of_toNat ((utf8EncodeChar_of_mem hmem (by omega)).trans hbyte)
    have hbs : bs = [] := by
      have hone := hd.symm.trans (utf8EncodeChar_ascii (hdc ▸ hc))
      exact (List.cons.inj hone).2
    rw [hbs, List.nil_append] at hrest
    rcases prefix_encode (fun c' hc' => ht c' (List.mem_cons_of_mem c hc')) hrest with hpre | ⟨t₂, rfl, hne, hr⟩
    · exact .inl (hdc ▸ List.cons_prefix_cons.mpr ⟨rfl, hpre⟩)
    · exact .inr ⟨t₂, by rw [hdc]; rfl, hne, hr⟩

/-! ### Integers -/

/-- The interpreter's limit on the digits of a text of an integer. -/
def maxStrDigits : ℕ := 4300

/-- `str(n)`, `none` where Python raises `ValueError`. -/
def str (n : ℤ) : Option Str :=
  let ds := Nat.toDigits 10 n.natAbs
  if ds.length ≤ maxStrDigits then some (if n < 0 then '-' :: ds else ds) else none

/-- The zero of each run of decimal digits in Unicode. -/
def decimalZeros : List ℕ :=
  [0x30, 0x660, 0x6f0, 0x7c0, 0x966, 0x9e6, 0xa66, 0xae6, 0xb66, 0xbe6, 0xc66, 0xce6, 0xd66,
   0xde6, 0xe50, 0xed0, 0xf20, 0x1040, 0x1090, 0x17e0, 0x1810, 0x1946, 0x19d0, 0x1a80, 0x1a90,
   0x1b50, 0x1bb0, 0x1c40, 0x1c50, 0xa620, 0xa8d0, 0xa900, 0xa9d0, 0xa9f0, 0xaa50, 0xabf0, 0xff10,
   0x104a0, 0x10d30, 0x10d40, 0x11066, 0x110f0, 0x11136, 0x111d0, 0x112f0, 0x11450, 0x114d0,
   0x11650, 0x116c0, 0x116d0, 0x116da, 0x11730, 0x118e0, 0x11950, 0x11bf0, 0x11c50, 0x11d50,
   0x11da0, 0x11f50, 0x16130, 0x16a60, 0x16ac0, 0x16b50, 0x1ccf0, 0x1d7ce, 0x1d7d8, 0x1d7e2,
   0x1d7ec, 0x1d7f6, 0x1e140, 0x1e2f0, 0x1e4f0, 0x1e5f1, 0x1e950, 0x1fbf0]

/-- The value of a Unicode decimal digit. -/
def decimal (c : Char) : Option ℕ :=
  (decimalZeros.find? fun z => decide (z ≤ c.toNat ∧ c.toNat < z + 10)).map (c.toNat - ·)

/-- The first and last of each run of digits in Unicode that have a value but
are no decimals. -/
def digitRanges : List (ℕ × ℕ) :=
  [(0xb2, 0xb3), (0xb9, 0xb9), (0x1369, 0x1371), (0x19da, 0x19da), (0x2070, 0x2070), (0x2074, 0x2079),
   (0x2080, 0x2089), (0x2460, 0x2468), (0x2474, 0x247c), (0x2488, 0x2490), (0x24ea, 0x24ea), (0x24f5, 0x24fd),
   (0x24ff, 0x24ff), (0x2776, 0x277e), (0x2780, 0x2788), (0x278a, 0x2792), (0x10a40, 0x10a43),
   (0x10e60, 0x10e68), (0x11052, 0x1105a), (0x1f100, 0x1f10a)]

/-- `s.isdigit()`. -/
def isdigit (s : Str) : Bool :=
  s ≠ [] ∧ s.all fun c => (decimal c).isSome ∨ digitRanges.any fun r => r.1 ≤ c.toNat ∧ c.toNat ≤ r.2

/-- The spaces of Unicode beyond ASCII. -/
def isWideSpace (c : Char) : Bool :=
  c.toNat ∈ [0x85, 0xa0, 0x1680, 0x2028, 0x2029, 0x202f, 0x205f, 0x3000] ∨
    (0x2000 ≤ c.toNat ∧ c.toNat ≤ 0x200a)

/-- C's `isspace`. -/
def isAsciiSpace (c : Char) : Bool := c = ' ' ∨ (9 ≤ c.toNat ∧ c.toNat ≤ 13)

/-- The text with its digits and spaces in ASCII; what is neither becomes `?`. -/
def toAscii (s : Str) : Str :=
  if s.all (·.toNat < 128) then s
  else s.map fun c =>
    if c.toNat < 127 then c
    else if isWideSpace c then ' '
    else (decimal c).elim '?' Nat.digitChar

/-- A text without the spaces around it. -/
def strip (s : Str) : Str := (s.dropWhile isAsciiSpace).rdropWhile isAsciiSpace

/-- The digits of a text of digits with single underscores between them;
`prev` says that a digit came just before. -/
def digitRun : (prev : Bool) → Str → Option Str
  | prev, [] => if prev then some [] else none
  | prev, c :: s =>
    if c = '_' then (if prev then digitRun false s else none)
    else if c.isDigit then (digitRun true s).map (c :: ·)
    else none

/-- An unsigned text of digits, as a number. -/
def natOf (s : Str) : Option ℕ :=
  (digitRun false s).bind fun ds =>
    if ds.length ≤ maxStrDigits then some (Nat.ofDigitChars 10 ds 0) else none

/-- `int(s)`, `none` where Python raises `ValueError`. -/
def int (s : Str) : Option ℤ :=
  match strip (toAscii s) with
  | '-' :: t => (natOf t).map fun n => -(n : ℤ)
  | '+' :: t => (natOf t).map (↑)
  | t => (natOf t).map (↑)

theorem digitRun_of_isDigit : ∀ (ds : Str) (prev : Bool), (∀ c ∈ ds, c.isDigit) →
    (prev = true ∨ ds ≠ []) → digitRun prev ds = some ds
  | [], prev, _, h => by
    rcases h with rfl | h
    · rfl
    · exact absurd rfl h
  | c :: ds, prev, h, _ => by
    have hc : c.isDigit := h c List.mem_cons_self
    have hu : c ≠ '_' := by
      rintro rfl
      exact absurd hc (by decide)
    have ih := digitRun_of_isDigit ds true (fun d hd => h d (List.mem_cons_of_mem _ hd)) (Or.inl rfl)
    simp [digitRun, hu, hc, ih]

theorem isDigit_toDigits (n : ℕ) : ∀ c ∈ Nat.toDigits 10 n, c.isDigit :=
  fun _ hc => Nat.isDigit_of_mem_toDigits (by decide) (by decide) hc

theorem toDigits_ne_nil (n : ℕ) : Nat.toDigits 10 n ≠ [] := by
  intro h
  have := (Nat.length_toDigits_pos (b := 10) (n := n))
  simp [h] at this

theorem natOf_toDigits {n : ℕ} (h : (Nat.toDigits 10 n).length ≤ maxStrDigits) :
    natOf (Nat.toDigits 10 n) = some n := by
  rw [natOf, digitRun_of_isDigit _ _ (isDigit_toDigits n) (Or.inr (toDigits_ne_nil n))]
  simp [h, Nat.ofDigitChars_ten_toDigits]

/-- Digits and signs are ASCII and no spaces. -/
def isPlain (c : Char) : Prop := c.toNat < 128 ∧ isAsciiSpace c = false

theorem isPlain_of_isDigit {c : Char} (h : c.isDigit) : isPlain c := by
  simp only [Char.isDigit, Bool.and_eq_true, decide_eq_true_eq, ge_iff_le, UInt32.le_iff_toNat_le] at h
  have h1 : 48 ≤ c.toNat := h.1
  have h2 : c.toNat ≤ 57 := h.2
  refine ⟨by omega, ?_⟩
  have hs : c ≠ ' ' := by
    rintro rfl
    exact absurd h1 (by decide)
  simp only [isAsciiSpace, hs, false_or, decide_eq_false_iff_not]
  omega

theorem strip_toAscii {s : Str} (h : ∀ c ∈ s, isPlain c) : strip (toAscii s) = s := by
  have ha : toAscii s = s := if_pos (by simpa using fun c hc => (h c hc).1)
  rw [ha, strip]
  cases s with
  | nil => rfl
  | cons c s =>
    have hc : isAsciiSpace c = false := (h c List.mem_cons_self).2
    rw [List.dropWhile_cons_of_neg (by simp [hc]), List.rdropWhile_eq_self_iff]
    intro hl
    simpa using (h _ (List.getLast_mem hl)).2

/-- **Reading a number's text gives the number back.** -/
theorem int_str {n : ℤ} {s : Str} (h : str n = some s) : int s = some n := by
  simp only [str] at h
  split at h
  · rename_i hlen
    have hd : ∀ c ∈ Nat.toDigits 10 n.natAbs, isPlain c :=
      fun c hc => isPlain_of_isDigit (isDigit_toDigits _ c hc)
    have hnat := natOf_toDigits hlen
    by_cases hn : n < 0
    · obtain rfl : '-' :: Nat.toDigits 10 n.natAbs = s := by simpa [hn] using h
      have hs : strip (toAscii ('-' :: Nat.toDigits 10 n.natAbs)) = '-' :: Nat.toDigits 10 n.natAbs :=
        strip_toAscii fun c hc => by
          rcases List.mem_cons.mp hc with rfl | hc
          · exact ⟨by decide, by decide⟩
          · exact hd c hc
      rw [int, hs]
      have hneg : -(n.natAbs : ℤ) = n := by omega
      simp only [hnat]
      exact congrArg some hneg
    · obtain rfl : Nat.toDigits 10 n.natAbs = s := by simpa [hn] using h
      have hfirst : ∀ c t, Nat.toDigits 10 n.natAbs = c :: t → c ≠ '-' ∧ c ≠ '+' := by
        intro c t hct
        have hc := isDigit_toDigits n.natAbs c (hct ▸ List.mem_cons_self)
        constructor <;> · rintro rfl; exact absurd hc (by decide)
      rw [int, strip_toAscii hd]
      split
      · exact absurd rfl (hfirst _ _ ‹_›).1
      · exact absurd rfl (hfirst _ _ ‹_›).2
      · simp only [hnat, Option.map_some]
        exact congrArg some (by omega)
  · exact absurd h (by simp)

theorem mem_str {n : ℤ} {s : Str} (h : str n = some s) : ∀ c ∈ s, c = '-' ∨ c.isDigit := by
  simp only [str] at h
  split at h
  · obtain rfl := Option.some.inj h
    intro c hc
    split at hc
    · rcases List.mem_cons.mp hc with rfl | hc
      · exact Or.inl rfl
      · exact Or.inr (isDigit_toDigits _ c hc)
    · exact Or.inr (isDigit_toDigits _ c hc)
  · exact absurd h (by simp)

end Py
end MqResiliency
