/-
# The right task's time

A transcript is blocks: a banner, its timing line with the duration of the block
before, and the lines of its results. It ends after any line, or with the timing
line of the recap. What `ansible_task_outcomes` says of a name is about the
first task block of that name: its time is the duration of the next timing
line, and its results are those of that block (`outcomes_iff`).
-/
import Mathlib.Data.Option.Basic
import Mathlib.Data.Rat.Cast.Order
import Mathlib.Tactic.Ring
import MqResiliency.Lib.Digits
import MqResiliency.Perf.TaskOutcomes

namespace MqResiliency
namespace Perf

open Py
open Re (isSpace)

/-! ### Stars -/

/-- The end of a banner or a timing line. -/
structure Stars : Type where
  more : ℕ
  trailing : Str
  blank : ∀ c ∈ trailing, isSpace c

def Stars.text (s : Stars) : Str := List.replicate (s.more + 1) '*' ++ s.trailing

theorem rdropWhile_append {p : Char → Bool} {s t : Str} {c : Char} (ht : ∀ d ∈ t, p d) (hc : p c = false) :
    (s ++ [c] ++ t).rdropWhile p = s ++ [c] := by
  induction t using List.reverseRecOn with
  | nil => rw [List.append_nil, List.rdropWhile_concat_neg _ _ _ (by simp [hc])]
  | append_singleton t d ih =>
    have hd : p d := ht d (by simp)
    rw [← List.append_assoc, List.rdropWhile_concat_pos _ _ _ hd, ih fun e he => ht e (by simp [he])]

theorem beforeStars_append (body : Str) {c : Char} (hc : c ≠ '*') (s : Stars) :
    beforeStars (body ++ [c] ++ s.text) = some (body ++ [c]) := by
  have hspaces : (body ++ [c] ++ s.text).rdropWhile isSpace = body ++ [c] ++ List.replicate (s.more + 1) '*' := by
    have hsplit : body ++ [c] ++ s.text = (body ++ [c] ++ List.replicate s.more '*') ++ ['*'] ++ s.trailing := by
      simp [Stars.text, List.replicate_succ']
    have hjoin : body ++ [c] ++ List.replicate (s.more + 1) '*' = (body ++ [c] ++ List.replicate s.more '*') ++ ['*'] := by
      simp [List.replicate_succ']
    rw [hsplit, hjoin, rdropWhile_append s.blank (by decide)]
  have hstars : (body ++ [c] ++ List.replicate (s.more + 1) '*').rdropWhile (· = '*') = body ++ [c] :=
    rdropWhile_append (by simp) (by simpa using hc)
  unfold beforeStars
  dsimp only
  rw [hspaces, hstars, if_neg]
  intro h
  have hlen := congrArg List.length h
  simp at hlen

/-! ### Durations -/

/-- A number in a fixed width. -/
def pad2 (n : ℕ) : Str := [Nat.digitChar (n / 10), Nat.digitChar (n % 10)]

def pad3 (n : ℕ) : Str := Nat.digitChar (n / 100) :: pad2 (n % 100)

/-- The groups of a duration in milliseconds. -/
def clockOf (ms : ℕ) : Clock where
  h := Nat.toDigits 10 (ms / 3600000)
  m := pad2 (ms / 60000 % 60)
  s := pad2 (ms / 1000 % 60)
  ms := pad3 (ms % 1000)

/-- `h:mm:ss.fff`. -/
def Clock.text (c : Clock) : Str := c.h ++ ':' :: c.m ++ ':' :: c.s ++ '.' :: c.ms

theorem isDecimal_digitChar {n : ℕ} (h : n < 10) : isDecimal (Nat.digitChar n) := by
  have hall : ∀ n < 10, isDecimal (Nat.digitChar n) = true := by decide
  exact hall n h

theorem isDecimal_of_isDigit {c : Char} (h : c.isDigit) : isDecimal c := by
  obtain ⟨hlo, hhi⟩ : 48 ≤ c.toNat ∧ c.toNat ≤ 57 := by
    simpa [Char.isDigit, Char.le_def, UInt32.le_iff_toNat_le] using h
  have hzero : decimalZeros.find? (fun z => decide (z ≤ c.toNat ∧ c.toNat < z + 10)) = some 0x30 := by
    unfold decimalZeros
    rw [List.find?_cons_of_pos (by simp; omega)]
  rw [isDecimal, decimal, hzero]
  rfl

theorem decimal_toDigits (n : ℕ) : ∀ c ∈ Nat.toDigits 10 n, isDecimal c :=
  fun c hc => isDecimal_of_isDigit (isDigit_toDigits n c hc)

theorem decimal_pad2 {n : ℕ} (h : n < 100) : ∀ c ∈ pad2 n, isDecimal c := by
  intro c hc
  rcases List.mem_pair.mp hc with rfl | rfl
  · exact isDecimal_digitChar (by omega)
  · exact isDecimal_digitChar (by omega)

theorem decimal_pad3 {n : ℕ} (h : n < 1000) : ∀ c ∈ pad3 n, isDecimal c := by
  intro c hc
  rcases List.mem_cons.mp hc with rfl | hc
  · exact isDecimal_digitChar (by omega)
  · exact decimal_pad2 (by omega) c hc

theorem digitsOf?_append {ds s : Str} (h : ∀ c ∈ ds, isDecimal c) : digitsOf? ds.length (ds ++ s) = some (ds, s) := by
  have htake : (ds ++ s).take ds.length = ds := List.take_left
  have hdrop : (ds ++ s).drop ds.length = s := List.drop_left
  rw [digitsOf?, htake, hdrop, if_pos ⟨rfl, List.all_eq_true.mpr h⟩]

/-- A duration is read back, whatever follows. -/
theorem clock_text (ms : ℕ) (s : Str) : clock ((clockOf ms).text ++ s) = some (clockOf ms, s) := by
  have hcolon : isDecimal ':' = false := by decide
  have hh := decimal_toDigits (ms / 3600000)
  have htext : (clockOf ms).text ++ s = Nat.toDigits 10 (ms / 3600000) ++
      ':' :: (pad2 (ms / 60000 % 60) ++ ':' :: (pad2 (ms / 1000 % 60) ++ '.' :: (pad3 (ms % 1000) ++ s))) := by
    simp [Clock.text, clockOf]
  have hm : digitsOf? 2 (pad2 (ms / 60000 % 60) ++ ':' :: (pad2 (ms / 1000 % 60) ++ '.' :: (pad3 (ms % 1000) ++ s))) =
      some (_, _) := digitsOf?_append (decimal_pad2 (by omega))
  have hs : digitsOf? 2 (pad2 (ms / 1000 % 60) ++ '.' :: (pad3 (ms % 1000) ++ s)) = some (_, _) :=
    digitsOf?_append (decimal_pad2 (by omega))
  have hms : digitsOf? 3 (pad3 (ms % 1000) ++ s) = some (_, _) := digitsOf?_append (decimal_pad3 (by omega))
  have hguard : (guard (Nat.toDigits 10 (ms / 3600000) ≠ []) : Option Unit) = some () := if_pos (toDigits_ne_nil _)
  rw [htext, clock]
  simp only [List.takeWhile_append_of_pos hh, List.dropWhile_append_of_pos hh, List.takeWhile_cons, List.dropWhile_cons,
    hcolon, Bool.false_eq_true, if_false, List.append_nil, hguard, afterChar, if_true, hm, hs, hms,
    Option.bind_eq_bind, Option.bind_some, Option.pure_def]
  rfl

theorem int_pad {ds : Str} (hne : ds ≠ []) (h : ∀ c ∈ ds, isDecimal c) (hlen : ds.length ≤ maxStrDigits) :
    int ds = some (digitsValue ds : ℤ) :=
  int_digits hne h hlen

theorem decimal_digitChar {n : ℕ} (h : n < 10) : decimal (Nat.digitChar n) = some n := by
  have hall : ∀ n < 10, decimal (Nat.digitChar n) = some n := by decide
  exact hall n h

theorem digitsValue_pad2 {n : ℕ} (h : n < 100) : digitsValue (pad2 n) = n := by
  simp only [digitsValue, pad2, List.foldl_cons, List.foldl_nil, decimal_digitChar (show n / 10 < 10 by omega),
    decimal_digitChar (show n % 10 < 10 by omega), Option.getD_some]
  omega

theorem digitsValue_pad3 {n : ℕ} (h : n < 1000) : digitsValue (pad3 n) = n := by
  simp only [digitsValue, pad3, pad2, List.foldl_cons, List.foldl_nil, decimal_digitChar (show n / 100 < 10 by omega),
    decimal_digitChar (show n % 100 / 10 < 10 by omega), decimal_digitChar (show n % 100 % 10 < 10 by omega),
    Option.getD_some]
  omega

theorem int_toDigits {n : ℕ} (h : (Nat.toDigits 10 n).length ≤ maxStrDigits) :
    int (Nat.toDigits 10 n) = some (n : ℤ) := by
  have hstr : str (n : ℤ) = some (Nat.toDigits 10 n) := by
    rw [str, Int.natAbs_natCast, if_pos h, if_neg (by omega)]
  exact int_str hstr

/-- **The seconds of a duration** whose hours `int` can read. -/
theorem timingSeconds_clockOf {ms : ℕ} (h : (Nat.toDigits 10 (ms / 3600000)).length ≤ maxStrDigits) :
    timingSeconds (clockOf ms) = some ((ms : ℚ) / 1000) := by
  have hh : int (clockOf ms).h = some ((ms / 3600000 : ℕ) : ℤ) := int_toDigits h
  have hm : int (clockOf ms).m = some ((ms / 60000 % 60 : ℕ) : ℤ) := by
    have hlt : ms / 60000 % 60 < 100 := by omega
    rw [clockOf, int_pad (by simp [pad2]) (decimal_pad2 hlt) (by simp [pad2, maxStrDigits]), digitsValue_pad2 hlt]
  have hs : int (clockOf ms).s = some ((ms / 1000 % 60 : ℕ) : ℤ) := by
    have hlt : ms / 1000 % 60 < 100 := by omega
    rw [clockOf, int_pad (by simp [pad2]) (decimal_pad2 hlt) (by simp [pad2, maxStrDigits]), digitsValue_pad2 hlt]
  have hms : int (clockOf ms).ms = some ((ms % 1000 : ℕ) : ℤ) := by
    have hlt : ms % 1000 < 1000 := by omega
    rw [clockOf, int_pad (by simp [pad3]) (decimal_pad3 hlt) (by simp [pad3, pad2, maxStrDigits]), digitsValue_pad3 hlt]
  have hsum : ms = 1000 * (3600 * (ms / 3600000) + 60 * (ms / 60000 % 60) + ms / 1000 % 60) + ms % 1000 := by omega
  have hcast : (ms : ℚ) = 1000 * (3600 * (ms / 3600000 : ℕ) + 60 * (ms / 60000 % 60 : ℕ) + (ms / 1000 % 60 : ℕ)) +
      (ms % 1000 : ℕ) := by exact_mod_cast hsum
  simp only [timingSeconds, hh, hm, hs, hms, Option.bind_eq_bind, Option.bind_some, Option.pure_def, Int.cast_natCast]
  rw [hcast]
  congr 1
  ring

/-! ### Banners and timing lines -/

inductive Kind : Type where
  | task
  | handler
deriving DecidableEq

def Kind.text : Kind → Str
  | task => "TASK [".toList
  | handler => "RUNNING HANDLER [".toList

structure Banner : Type where
  kind : Kind
  name : Str
  named : name ≠ []
  oneLine : '\n' ∉ name
  stars : Stars

def Banner.line (b : Banner) : Str := b.kind.text ++ b.name ++ ']' :: ' ' :: b.stars.text

/-- The line that `profile_tasks` prints when a task starts. -/
structure Timing : Type where
  date : Str
  /-- Of the task before, in milliseconds. -/
  prev : ℕ
  /-- A time has no more hours than `int` reads. -/
  short : (Nat.toDigits 10 (prev / 3600000)).length ≤ maxStrDigits
  gap : ℕ
  total : ℕ
  stars : Stars

def Timing.body (t : Timing) : Str :=
  t.date ++ '(' :: ((clockOf t.prev).text ++ ')' :: (List.replicate (t.gap + 1) ' ' ++ (clockOf t.total).text))

def Timing.line (t : Timing) : Str := t.body ++ [' '] ++ t.stars.text

def Timing.seconds (t : Timing) : ℚ := t.prev / 1000

theorem beforeStars_banner (b : Banner) : beforeStars b.line = some (b.kind.text ++ b.name ++ "] ".toList) := by
  have hline : b.line = (b.kind.text ++ b.name ++ [']']) ++ [' '] ++ b.stars.text := by simp [Banner.line]
  rw [hline, beforeStars_append _ (by decide)]
  simp

theorem beforeStars_timing (t : Timing) : beforeStars t.line = some (t.body ++ [' ']) :=
  beforeStars_append t.body (by decide) t.stars

theorem taskBanner_of_body {line name : Str} (h : beforeStars line = some ("TASK [".toList ++ name ++ "] ".toList))
    (hne : name ≠ []) (hline : '\n' ∉ name) : taskBanner line = some name := by
  have hname : (("TASK [".toList ++ name ++ "] ".toList).drop 6).dropLast.dropLast = name := by
    have hsplit : "TASK [".toList ++ name ++ "] ".toList = "TASK [".toList ++ (name ++ [']'] ++ [' ']) := by simp
    have hlen : "TASK [".toList.length = 6 := rfl
    rw [hsplit, List.drop_left' hlen, List.dropLast_concat, List.dropLast_concat]
  rw [taskBanner, h, Option.bind_some]
  dsimp only
  rw [hname, if_pos ⟨rfl, hne, hline⟩]

/-- A task banner ends with the bracket. -/
theorem body_of_taskBanner {line name body : Str} (h : taskBanner line = some name) (hbody : beforeStars line = some body) :
    body = "TASK [".toList ++ name ++ "] ".toList := by
  rw [taskBanner, hbody, Option.bind_some] at h
  dsimp only at h
  split at h
  · rename_i hif
    obtain rfl := Option.some.inj h
    exact hif.1
  · cases h

theorem taskBanner_task {b : Banner} (h : b.kind = .task) : taskBanner b.line = some b.name :=
  taskBanner_of_body (by rw [beforeStars_banner, h]; rfl) b.named b.oneLine

theorem taskBanner_handler {b : Banner} (h : b.kind = .handler) : taskBanner b.line = none := by
  refine Option.eq_none_iff_forall_ne_some.mpr fun name hname => ?_
  have hbody := body_of_taskBanner hname (beforeStars_banner b)
  have hhandler : Kind.handler.text.head? = some 'R' := rfl
  have htask : "TASK [".toList.head? = some 'T' := rfl
  have hhead := congrArg List.head? hbody
  rw [h, List.append_assoc, List.head?_append, hhandler, List.append_assoc, List.head?_append (l := "TASK [".toList),
    htask] at hhead
  cases hhead

/-! A duration ends with a digit. -/

theorem afterChar_eq_some {c : Char} {s t : Str} : afterChar c s = some t ↔ s = c :: t := by
  cases s with
  | nil => simp [afterChar]
  | cons d s =>
    rw [afterChar]
    split
    · rename_i h
      simp [h]
    · rename_i h
      simp [h]

theorem digitsOf?_eq_some {n : ℕ} {s ds t : Str} (h : digitsOf? n s = some (ds, t)) :
    s = ds ++ t ∧ ds.length = n ∧ ∀ c ∈ ds, isDecimal c := by
  unfold digitsOf? at h
  split at h
  · rename_i hif
    obtain ⟨rfl, rfl⟩ := Prod.mk.inj (Option.some.inj h)
    exact ⟨(List.take_append_drop n s).symm, hif.1, List.all_eq_true.mp hif.2⟩
  · cases h

theorem exists_digit_of_clock {s t : Str} {c : Clock} (h : clock s = some (c, t)) :
    ∃ u d, s = u ++ [d] ++ t ∧ isDecimal d := by
  simp only [clock, Option.bind_eq_bind, Option.bind_eq_some_iff, Prod.exists, Option.pure_def, Option.some.injEq,
    Prod.mk.injEq] at h
  obtain ⟨_, -, s₁, h₁, m, s₂, hm, s₃, h₃, sec, s₄, hsec, s₅, h₅, ms, s₆, hms, -, rfl⟩ := h
  obtain ⟨hs₅, hlen, hdec⟩ := digitsOf?_eq_some hms
  obtain ⟨hs₃, -, -⟩ := digitsOf?_eq_some hsec
  obtain ⟨hs₁, -, -⟩ := digitsOf?_eq_some hm
  obtain ⟨ds, d, rfl⟩ : ∃ ds d, ms = ds ++ [d] := by
    rcases List.eq_nil_or_concat ms with rfl | ⟨ds, d, rfl⟩
    · cases hlen
    · exact ⟨ds, d, by simp⟩
  refine ⟨s.takeWhile isDecimal ++ ':' :: (m ++ ':' :: (sec ++ '.' :: ds)), d, ?_, hdec d (by simp)⟩
  rw [afterChar_eq_some] at h₁ h₃ h₅
  have hwhole : s = s.takeWhile isDecimal ++ ':' :: (m ++ ':' :: (sec ++ '.' :: (ds ++ [d] ++ s₆))) := by
    rw [← hs₅, ← h₅, ← hs₃, ← h₃, ← hs₁, ← h₁, List.takeWhile_append_dropWhile]
  conv_lhs => rw [hwhole]
  simp

/-- A timing line ends with a digit. -/
theorem exists_digit_of_taskTiming {line body : Str} {c : Clock} (h : taskTiming line = some c)
    (hbody : beforeStars line = some body) : ∃ u d, body = u ++ [d] ++ [' '] ∧ isDecimal d := by
  simp only [taskTiming, hbody, Option.bind_eq_bind, Option.bind_some, Option.bind_eq_some_iff, Prod.exists,
    Option.pure_def, Option.some.injEq] at h
  obtain ⟨s, hs, c₁, s₁, h₁, s₂, h₂, _, -, c₂, s₃, h₃, _, hend, -⟩ := h
  obtain rfl : s₃ = [' '] := (Option.guard_eq_some' _).mp hend
  obtain ⟨u₁, d₁, hs₁, -⟩ := exists_digit_of_clock h₁
  obtain ⟨u, d, hs₃, hd⟩ := exists_digit_of_clock h₃
  have hs₂ : s₁ = ')' :: s₂ := afterChar_eq_some.mp h₂
  have hsuffix : s <:+ body := by
    unfold afterParen at hs
    split at hs
    · obtain rfl := Option.some.inj hs
      exact List.rtakeWhile_suffix _ _
    · cases hs
  have hlast : s₂.dropWhile isSpace <:+ body := by
    refine (List.dropWhile_suffix _).trans (List.IsSuffix.trans ?_ hsuffix)
    exact ⟨u₁ ++ [d₁] ++ [')'], by rw [hs₁, hs₂]; simp⟩
  obtain ⟨v, rfl⟩ := hlast
  exact ⟨v ++ u, d, by rw [hs₃]; simp, hd⟩

theorem not_decimal_bracket : isDecimal ']' = false := by decide

/-- No banner is a timing line. -/
theorem taskTiming_banner (b : Banner) : taskTiming b.line = none := by
  refine Option.eq_none_iff_forall_ne_some.mpr fun c hc => ?_
  obtain ⟨u, d, hbody, hd⟩ := exists_digit_of_taskTiming hc (beforeStars_banner b)
  have hend : b.kind.text ++ b.name ++ "] ".toList = b.kind.text ++ b.name ++ [']'] ++ [' '] := by simp
  rw [hend] at hbody
  have hlast := (List.append_inj' (List.append_inj' hbody rfl).1 rfl).2
  rw [← (List.cons.inj hlast).1, not_decimal_bracket] at hd
  cases hd

theorem paren_not_mem_text (ms : ℕ) : '(' ∉ (clockOf ms).text := by
  have hnot : ∀ {ds : Str}, (∀ c ∈ ds, isDecimal c) → '(' ∉ ds := fun h hc => absurd (h _ hc) (by decide)
  have hh := hnot (decimal_toDigits (ms / 3600000))
  have hm := hnot (decimal_pad2 (show ms / 60000 % 60 < 100 by omega))
  have hs := hnot (decimal_pad2 (show ms / 1000 % 60 < 100 by omega))
  have hms := hnot (decimal_pad3 (show ms % 1000 < 1000 by omega))
  simp [Clock.text, clockOf, hh, hm, hs, hms]

theorem afterParen_append (pre : Str) {rest : Str} (h : '(' ∉ rest) : afterParen (pre ++ '(' :: rest) = some rest := by
  have hp : ∀ c ∈ rest.reverse, decide (c ≠ '(') = true := fun c hc => by
    simpa using fun heq : c = '(' => h (heq ▸ List.mem_reverse.mp hc)
  have hrest : (pre ++ '(' :: rest).rtakeWhile (· ≠ '(') = rest := by
    have hrev : (pre ++ '(' :: rest).reverse = rest.reverse ++ '(' :: pre.reverse := by simp
    rw [List.rtakeWhile, hrev, List.takeWhile_append_of_pos hp, List.takeWhile_cons_of_neg (by simp), List.append_nil,
      List.reverse_reverse]
  rw [afterParen, if_pos (by simp), hrest]

theorem isSpace_of_isDigit {c : Char} (h : c.isDigit) : isSpace c = false := by
  obtain ⟨hlo, hhi⟩ : 48 ≤ c.toNat ∧ c.toNat ≤ 57 := by
    simpa [Char.isDigit, Char.le_def, UInt32.le_iff_toNat_le] using h
  obtain ⟨-, hascii⟩ := isPlain_of_isDigit h
  refine Bool.eq_false_iff.mpr fun hspace => ?_
  simp [isSpace, isWideSpace, hascii] at hspace
  omega

/-- A timing line is read as its duration. -/
theorem taskTiming_timing (t : Timing) : taskTiming t.line = some (clockOf t.prev) := by
  set rest := (clockOf t.prev).text ++ (')' :: (List.replicate (t.gap + 1) ' ' ++ ((clockOf t.total).text ++ [' '])))
    with hrest
  have hbody : t.body ++ [' '] = t.date ++ '(' :: rest := by simp [Timing.body, hrest]
  have hnot : '(' ∉ rest := by
    have hprev := paren_not_mem_text t.prev
    have htotal := paren_not_mem_text t.total
    simp [hrest, hprev, htotal]
  have hparen : afterParen (t.body ++ [' ']) = some rest := hbody ▸ afterParen_append t.date hnot
  have hspace : ∀ c ∈ List.replicate (t.gap + 1) ' ', isSpace c := by
    intro c hc
    rw [List.eq_of_mem_replicate hc]
    decide
  have hdrop : (List.replicate (t.gap + 1) ' ' ++ ((clockOf t.total).text ++ [' '])).dropWhile isSpace =
      (clockOf t.total).text ++ [' '] := by
    obtain ⟨d, ds, hds⟩ := List.exists_cons_of_ne_nil (toDigits_ne_nil (t.total / 3600000))
    have hd : isSpace d = false := isSpace_of_isDigit (isDigit_toDigits (t.total / 3600000) d (hds ▸ List.mem_cons_self))
    rw [List.dropWhile_append_of_pos hspace]
    simp [Clock.text, clockOf, hds, hd]
  have hguard : (List.replicate (t.gap + 1) ' ' ++ ((clockOf t.total).text ++ [' '])).takeWhile isSpace ≠ [] := by
    rw [List.takeWhile_append_of_pos hspace]
    simp
  have hguard' : (guard ((List.replicate (t.gap + 1) ' ' ++ ((clockOf t.total).text ++ [' '])).takeWhile isSpace ≠ []) :
      Option Unit) = some () := if_pos hguard
  have hend : (guard True : Option Unit) = some () := rfl
  simp only [taskTiming, beforeStars_timing, hparen, hrest, clock_text, afterChar, hguard', hdrop, hend, if_true,
    Option.bind_eq_bind, Option.bind_some, Option.pure_def]

theorem taskBanner_timing (t : Timing) : taskBanner t.line = none := by
  refine Option.eq_none_iff_forall_ne_some.mpr fun name hname => ?_
  obtain ⟨u, d, hbody, hd⟩ := exists_digit_of_taskTiming (taskTiming_timing t) (beforeStars_timing t)
  have hbanner := body_of_taskBanner hname (beforeStars_timing t)
  have hend : "TASK [".toList ++ name ++ "] ".toList = "TASK [".toList ++ name ++ [']'] ++ [' '] := by simp
  rw [hbanner, hend] at hbody
  have hlast := (List.append_inj' (List.append_inj' hbody rfl).1 rfl).2
  rw [← (List.cons.inj hlast).1, not_decimal_bracket] at hd
  cases hd

/-! ### Transcripts -/

structure Block : Type where
  banner : Banner
  timing : Timing
  results : List Str
  plain : ∀ line ∈ results, taskBanner line = none ∧ taskTiming line = none

def Block.lines (b : Block) : List Str := b.banner.line :: b.timing.line :: b.results

/-- A task of that name. -/
def Block.IsTask (b : Block) (name : Str) : Prop := b.banner.kind = .task ∧ b.banner.name = name

instance (b : Block) (name : Str) : Decidable (b.IsTask name) := inferInstanceAs (Decidable (_ ∧ _))

/-- How a transcript ends. One that is cut in the results of a block has fewer
results there. -/
inductive Ending : Type where
  | cut
  | banner (b : Banner)
  | recap (t : Timing)

def Ending.lines : Ending → List Str
  | cut => []
  | banner b => [b.line]
  | recap t => [t.line]

structure Transcript : Type where
  blocks : List Block
  ending : Ending

def Transcript.lines (t : Transcript) : List Str := t.blocks.flatMap Block.lines ++ t.ending.lines

/-- The first timing line from here on. -/
def nextTiming : List Block → Ending → Option Timing
  | b :: _, _ => some b.timing
  | [], .recap t => some t
  | [], _ => none

/-- What is said of a block that is followed by others. -/
def outcomeOf (b : Block) (after : List Block) (e : Ending) : TaskOutcome where
  seconds := (nextTiming after e).map Timing.seconds
  ok := b.results.any isOk
  failed := b.results.any isFatal

/-! ### Scanning a block -/

section
variable (names : List Str)

theorem line_task {b : Banner} (h : b.kind = .task) (s : Scan) :
    s.line names b.line = some { s with banner := some b.name } := by
  rw [Scan.line, taskBanner_task h]

theorem result_of_head {line : Str} {c : Char} (h : line.head? = some c) (hc : c ≠ 'o' ∧ c ≠ 'c' ∧ c ≠ 'f') (s : Scan) :
    s.result line = s := by
  obtain ⟨rest, rfl⟩ : ∃ rest, line = c :: rest := by
    cases line with
    | nil => cases h
    | cons d rest => exact ⟨rest, by rw [Option.some.inj h]⟩
  have hok : isOk (c :: rest) = false := by
    have h₁ : "ok: [".toList = 'o' :: "k: [".toList := rfl
    have h₂ : "changed: [".toList = 'c' :: "hanged: [".toList := rfl
    simp [isOk, h₁, h₂, List.isPrefixOf, Ne.symm hc.1, Ne.symm hc.2.1]
  have hfatal : isFatal (c :: rest) = false := by
    have h₃ : "fatal: [".toList = 'f' :: "atal: [".toList := rfl
    simp [isFatal, h₃, List.isPrefixOf, Ne.symm hc.2.2]
  unfold Scan.result
  split
  · rw [hok, hfatal]
    rfl
  · rfl

theorem line_handler {b : Banner} (h : b.kind = .handler) (s : Scan) : s.line names b.line = some s := by
  have hhead : b.line.head? = some 'R' := by
    rw [Banner.line, h, List.append_assoc, List.head?_append]
    rfl
  rw [Scan.line, taskBanner_handler h, taskTiming_banner]
  exact congrArg some (result_of_head hhead (by decide) s)

theorem line_timing (t : Timing) (s : Scan) : s.line names t.line = s.timing names (clockOf t.prev) := by
  rw [Scan.line, taskBanner_timing, taskTiming_timing]

/-- What results add to an outcome. -/
def TaskOutcome.seen (results : List Str) (o : TaskOutcome) : TaskOutcome :=
  { o with ok := o.ok || results.any isOk, failed := o.failed || results.any isFatal }

theorem not_isFatal_of_isOk {line : Str} (h : isOk line) : isFatal line = false := by
  have h₁ : "ok: [".toList = 'o' :: "k: [".toList := rfl
  have h₂ : "changed: [".toList = 'c' :: "hanged: [".toList := rfl
  have h₃ : "fatal: [".toList = 'f' :: "atal: [".toList := rfl
  cases line with
  | nil => rfl
  | cons c rest =>
    rw [isOk, h₁, h₂] at h
    rw [isFatal, h₃]
    by_cases hc : c = 'f'
    · subst hc
      simp [List.isPrefixOf] at h
    · simp [List.isPrefixOf, Ne.symm hc]

/-- What one result line does to the entries. -/
theorem get?_result (s : Scan) (line name : Str) : (s.result line).out.get? name =
    if s.active = some name then (s.out.get? name).map (TaskOutcome.seen [line]) else s.out.get? name := by
  unfold Scan.result
  cases hactive : s.active with
  | none => simp
  | some a =>
    dsimp only
    have hsame : ∀ o : TaskOutcome, isOk line = false → isFatal line = false → o.seen [line] = o := by
      intro o hok hfatal
      simp [TaskOutcome.seen, hok, hfatal]
    by_cases hname : name = a
    · subst hname
      rw [if_pos rfl]
      split
      · rename_i hok
        rw [Dict.get?_modify, if_pos rfl]
        refine Option.map_congr fun o _ => ?_
        simp [TaskOutcome.seen, hok, not_isFatal_of_isOk hok]
      · rename_i hok
        have hok' : isOk line = false := by simpa using hok
        split
        · rename_i hfatal
          rw [Dict.get?_modify, if_pos rfl]
          refine Option.map_congr fun o _ => ?_
          simp [TaskOutcome.seen, hok', hfatal]
        · rename_i hfatal
          cases s.out.get? name with
          | none => rfl
          | some o => exact congrArg some (hsame o hok' (by simpa using hfatal)).symm
    · rw [if_neg fun h => hname (Option.some.inj h).symm]
      split
      · rw [Dict.get?_modify, if_neg hname]
      · split
        · rw [Dict.get?_modify, if_neg hname]
        · rfl

theorem banner_result (s : Scan) (line : Str) : (s.result line).banner = s.banner := by
  unfold Scan.result
  split
  · split
    · rfl
    · split <;> rfl
  · rfl

theorem active_result (s : Scan) (line : Str) : (s.result line).active = s.active := by
  unfold Scan.result
  split
  · split
    · exact ‹s.active = _›.symm ▸ rfl
    · split <;> rfl
  · rfl

/-- The results of a block go to the entry of the running task. -/
theorem foldlM_results : ∀ {results : List Str} (s : Scan),
    (∀ line ∈ results, taskBanner line = none ∧ taskTiming line = none) →
    ∃ s', results.foldlM (Scan.line names) s = some s' ∧ s'.banner = s.banner ∧ s'.active = s.active ∧
      ∀ name, s'.out.get? name =
        if s.active = some name then (s.out.get? name).map (TaskOutcome.seen results) else s.out.get? name
  | [], s, _ => by
    refine ⟨s, rfl, rfl, rfl, fun name => ?_⟩
    have hid : TaskOutcome.seen [] = id := by
      funext o
      simp [TaskOutcome.seen]
    rw [hid, Option.map_id]
    exact (ite_self _).symm
  | line :: results, s, h => by
    obtain ⟨hbanner, htiming⟩ := h line List.mem_cons_self
    have hline : s.line names line = some (s.result line) := by rw [Scan.line, hbanner, htiming]
    obtain ⟨s', hs', hb, ha, hget⟩ := foldlM_results (s.result line) fun l hl => h l (List.mem_cons_of_mem line hl)
    refine ⟨s', ?_, hb.trans (banner_result s line), ha.trans (active_result s line), fun name => ?_⟩
    · rw [List.foldlM_cons, hline]
      exact hs'
    · rw [hget, active_result, get?_result]
      split
      · rw [Option.map_map]
        refine Option.map_congr fun o _ => ?_
        simp [TaskOutcome.seen, Bool.or_assoc]
      · rfl

/-- What a timing line does: the running task has its seconds, and the one of
the banner runs. -/
theorem timing_eq (t : Timing) (s : Scan) : ∃ s', s.timing names (clockOf t.prev) = some s' ∧ s'.banner = none ∧
    s'.active = s.banner.filter (fun b => b ∈ names ∧ s.out.get? b = none) ∧
    ∀ name, s'.out.get? name =
      if s'.active = some name then some {}
      else if s.active = some name then (s.out.get? name).map ({ · with seconds := some t.seconds })
      else s.out.get? name := by
  obtain ⟨out, hout, hget⟩ : ∃ out, s.finish (clockOf t.prev) = some out ∧ ∀ name,
      out.get? name = if s.active = some name then (s.out.get? name).map ({ · with seconds := some t.seconds })
        else s.out.get? name := by
    unfold Scan.finish
    cases hactive : s.active with
    | none => exact ⟨s.out, rfl, fun name => by simp⟩
    | some a =>
      refine ⟨_, by rw [timingSeconds_clockOf t.short]; rfl, fun name => ?_⟩
      rw [Dict.get?_modify]
      by_cases hname : name = a
      · rw [hname, if_pos rfl, if_pos rfl]
        rfl
      · rw [if_neg hname, if_neg fun h => hname (Option.some.inj h).symm]
  have hkeys : ∀ name, name ∉ out.keys ↔ s.out.get? name = none := by
    intro name
    rw [← Dict.get?_eq_none, hget]
    split
    · rw [Option.map_eq_none_iff]
    · rfl
  rw [Scan.timing, hout, Option.map_some]
  cases hbanner : s.banner with
  | none => exact ⟨⟨out, none, none⟩, rfl, rfl, rfl, fun name => by simp [hget]⟩
  | some b =>
    by_cases hb : b ∈ names ∧ s.out.get? b = none
    · refine ⟨⟨out.set b {}, none, some b⟩, congrArg some (if_pos ⟨hb.1, (hkeys b).mpr hb.2⟩), rfl, ?_, fun name => ?_⟩
      · exact (Option.filter_some_pos (by simpa using hb)).symm
      · rw [Dict.get?_set, hget]
        by_cases hname : name = b
        · rw [if_pos hname, if_pos (by rw [hname])]
        · rw [if_neg hname, if_neg fun h => hname (Option.some.inj h).symm]
    · have hif : ¬ (b ∈ names ∧ b ∉ out.keys) := fun h => hb ⟨h.1, (hkeys b).mp h.2⟩
      exact ⟨⟨out, none, none⟩, congrArg some (if_neg hif), rfl, (Option.filter_some_neg (by simpa using hb)).symm,
        fun name => by simp [hget]⟩

/-! ### The run -/

/-- The outcome of the first task of that name. -/
def firstOutcome (name : Str) : List Block → Ending → Option TaskOutcome
  | [], _ => none
  | b :: bs, e => if b.IsTask name then some (outcomeOf b bs e) else firstOutcome name bs e

/-- The duration of the running task, if its end is there. -/
def TaskOutcome.ended (t : Option Timing) (o : TaskOutcome) : TaskOutcome :=
  t.elim o fun t => { o with seconds := some t.seconds }

/-- **What one block does.** -/
theorem foldlM_block (b : Block) {s : Scan} (h : s.banner = none) : ∃ s',
    b.lines.foldlM (Scan.line names) s = some s' ∧ s'.banner = none ∧ ∀ name,
      (s'.active = some name ↔ b.IsTask name ∧ name ∈ names ∧ s.out.get? name = none) ∧
      s'.out.get? name =
        if s'.active = some name then some (TaskOutcome.seen b.results {})
        else if s.active = some name then (s.out.get? name).map (TaskOutcome.ended (some b.timing))
        else s.out.get? name := by
  obtain ⟨s₁, hline, hout, hactive, hbanner⟩ : ∃ s₁, s.line names b.banner.line = some s₁ ∧ s₁.out = s.out ∧
      s₁.active = s.active ∧ ∀ name, s₁.banner = some name ↔ b.IsTask name := by
    cases hkind : b.banner.kind with
    | task => exact ⟨_, line_task names hkind s, rfl, rfl, fun name => by simp [Block.IsTask, hkind]⟩
    | handler => exact ⟨s, line_handler names hkind s, rfl, rfl, fun name => by simp [Block.IsTask, hkind, h]⟩
  obtain ⟨s₂, htiming, hbanner₂, hactive₂, hget₂⟩ := timing_eq names b.timing s₁
  obtain ⟨s', hresults, hbanner', hactive', hget'⟩ := foldlM_results names s₂ b.plain
  refine ⟨s', ?_, hbanner'.trans hbanner₂, fun name => ⟨?_, ?_⟩⟩
  · rw [Block.lines, List.foldlM_cons, hline, Option.bind_eq_bind, Option.bind_some, List.foldlM_cons, line_timing names,
      htiming, Option.bind_eq_bind, Option.bind_some, hresults]
  · rw [hactive', hactive₂, Option.filter_eq_some_iff, hbanner, hout]
    simp
  · rw [hget', hactive', hget₂, hactive, hout]
    split
    · rfl
    · rfl

/-- What the end of a transcript does. -/
theorem foldlM_ending (e : Ending) {s : Scan} (h : s.banner = none) : ∃ s',
    e.lines.foldlM (Scan.line names) s = some s' ∧ ∀ name, s'.out.get? name =
      if s.active = some name then (s.out.get? name).map (TaskOutcome.ended (nextTiming [] e)) else s.out.get? name := by
  have hsame : ∀ name, s.out.get? name =
      if s.active = some name then (s.out.get? name).map (TaskOutcome.ended none) else s.out.get? name := by
    intro name
    have hid : TaskOutcome.ended none = id := rfl
    rw [hid, Option.map_id]
    exact (ite_self _).symm
  cases e with
  | cut => exact ⟨s, rfl, hsame⟩
  | banner b =>
    cases hkind : b.kind with
    | task =>
      refine ⟨{ s with banner := some b.name }, ?_, hsame⟩
      rw [Ending.lines, List.foldlM_cons, line_task names hkind]
      rfl
    | handler =>
      refine ⟨s, ?_, hsame⟩
      rw [Ending.lines, List.foldlM_cons, line_handler names hkind]
      rfl
  | recap t =>
    obtain ⟨s', htiming, -, hactive, hget⟩ := timing_eq names t s
    refine ⟨s', ?_, fun name => ?_⟩
    · rw [Ending.lines, List.foldlM_cons, line_timing names, htiming]
      rfl
    · rw [hget, hactive, h]
      rfl

/-- **What a run does.** A name that has an entry keeps it, with its duration if it
is running; another has that of its first task. -/
theorem foldlM_blocks (e : Ending) : ∀ (blocks : List Block) {s : Scan}, s.banner = none →
    ∃ s', (blocks.flatMap Block.lines ++ e.lines).foldlM (Scan.line names) s = some s' ∧ ∀ name,
      s'.out.get? name =
        match s.out.get? name with
        | some o => some (if s.active = some name then o.ended (nextTiming blocks e) else o)
        | none => if name ∈ names then firstOutcome name blocks e else none
  | [], s, h => by
    obtain ⟨s', hs', hget⟩ := foldlM_ending names e h
    refine ⟨s', hs', fun name => ?_⟩
    rw [hget]
    cases s.out.get? name with
    | none => simp [firstOutcome]
    | some o =>
      dsimp only
      split <;> rfl
  | b :: bs, s, h => by
    obtain ⟨s₁, hs₁, hbanner, hblock⟩ := foldlM_block names b h
    obtain ⟨s', hs', hget⟩ := foldlM_blocks e bs hbanner
    refine ⟨s', ?_, fun name => ?_⟩
    · rw [List.flatMap_cons, List.append_assoc, List.foldlM_append, hs₁]
      exact hs'
    · obtain ⟨hactive, hget₁⟩ := hblock name
      rw [hget]
      cases hname : s.out.get? name with
      | some o =>
        -- the entry is there: no later task changes it
        have hnot : ¬ s₁.active = some name := fun ha => by
          have hnone := (hactive.mp ha).2.2
          rw [hname] at hnone
          cases hnone
        rw [hget₁, if_neg hnot, hname]
        by_cases hrun : s.active = some name
        · rw [if_pos hrun, Option.map_some]
          dsimp only
          rw [if_neg hnot, if_pos hrun]
          rfl
        · rw [if_neg hrun]
          dsimp only
          rw [if_neg hnot, if_neg hrun]
      | none =>
        dsimp only
        by_cases hrun : s₁.active = some name
        · obtain ⟨htask, hin, -⟩ := hactive.mp hrun
          rw [hget₁, if_pos hrun, if_pos hin, firstOutcome, if_pos htask]
          dsimp only
          rw [if_pos hrun, outcomeOf]
          cases nextTiming bs e <;> simp [TaskOutcome.ended, TaskOutcome.seen, hin]
        · rw [hget₁, if_neg hrun, hname, Option.map_none, ite_self]
          dsimp only
          by_cases hin : name ∈ names
          · have htask : ¬ b.IsTask name := fun htask => hrun (hactive.mpr ⟨htask, hin, hname⟩)
            rw [if_pos hin, if_pos hin, firstOutcome, if_neg htask]
          · rw [if_neg hin, if_neg hin]

end

theorem firstOutcome_eq_some {name : Str} {o : TaskOutcome} {e : Ending} : ∀ {blocks : List Block},
    firstOutcome name blocks e = some o ↔ ∃ before b after, blocks = before ++ b :: after ∧
      (∀ b' ∈ before, ¬ b'.IsTask name) ∧ b.IsTask name ∧ o = outcomeOf b after e
  | [] => by simp [firstOutcome]
  | b :: bs => by
    rw [firstOutcome]
    split
    · rename_i htask
      constructor
      · intro h
        exact ⟨[], b, bs, rfl, by simp, htask, (Option.some.inj h).symm⟩
      · rintro ⟨before, b', after, heq, hbefore, hb', rfl⟩
        cases before with
        | nil =>
          obtain ⟨rfl, rfl⟩ := List.cons.inj heq
          rfl
        | cons c before =>
          obtain ⟨rfl, rfl⟩ := List.cons.inj heq
          exact absurd htask (hbefore b List.mem_cons_self)
    · rename_i htask
      rw [firstOutcome_eq_some]
      constructor
      · rintro ⟨before, b', after, rfl, hbefore, hb', rfl⟩
        refine ⟨b :: before, b', after, rfl, fun c hc => ?_, hb', rfl⟩
        rcases List.mem_cons.mp hc with rfl | hc
        · exact htask
        · exact hbefore c hc
      · rintro ⟨before, b', after, heq, hbefore, hb', rfl⟩
        cases before with
        | nil =>
          obtain ⟨rfl, rfl⟩ := List.cons.inj heq
          exact absurd hb' htask
        | cons c before =>
          obtain ⟨rfl, rfl⟩ := List.cons.inj heq
          exact ⟨before, b', after, rfl, fun d hd => hbefore d (List.mem_cons_of_mem b hd), hb', rfl⟩

/-- **Timings are read off the right task.** A name has an entry if and only if it
is asked for and a task of that name started, and the entry is about the first:
its duration is that of the next timing line, and its results are its own. -/
theorem outcomes_iff (names : List Str) (t : Transcript) : ∃ out, ansibleTaskOutcomes names t.lines = some out ∧
    ∀ name o, out.get? name = some o ↔ name ∈ names ∧ ∃ before b after, t.blocks = before ++ b :: after ∧
      (∀ b' ∈ before, ¬ b'.IsTask name) ∧ b.IsTask name ∧ o = outcomeOf b after t.ending := by
  obtain ⟨s', hs', hget⟩ := foldlM_blocks names t.ending t.blocks
    (s := ⟨.empty, none, none⟩) rfl
  refine ⟨s'.out, ?_, fun name o => ?_⟩
  · rw [ansibleTaskOutcomes, Transcript.lines, hs', Option.map_some]
  rw [hget name, Dict.get?_empty]
  dsimp only
  rw [← firstOutcome_eq_some]
  split
  · rename_i hname
    simp [hname]
  · rename_i hname
    simp [hname]

end Perf
end MqResiliency
