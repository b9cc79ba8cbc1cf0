/-
# The text format of metrics

A sample of an exposition is one line `name{label="value",...} number`
(`Sample.line`). In a label's value a backslash, a quote and a line feed are
escaped, and a number is what fits a double (`isNumber`). `readLine` reads a
line of that form.

A writer that escapes nothing writes lines that read back just where there is
nothing to escape (`readLine_line_iff`): an escape only makes a text longer,
so a text that reads back as the labels it was written from has none.
-/
import MqResiliency.Lib.FloatText

namespace MqResiliency
namespace Exposition

open Py

/-- A sample, with the text of its number. -/
@[ext] structure Sample : Type where
  name : Str
  labels : List (Str × Str)
  value : Str
deriving DecidableEq

/-- The same metric name and the same set of labels. -/
def Sample.SameSeries (s t : Sample) : Prop := s.name = t.name ∧ ∀ l, l ∈ s.labels ↔ l ∈ t.labels

/-! ### Writing without escapes -/

/-- `k="v"`. -/
def labelText (l : Str × Str) : Str := l.1 ++ '=' :: '"' :: (l.2 ++ ['"'])

/-- Labels with commas between them. -/
def labelsText : List (Str × Str) → Str
  | [] => []
  | [l] => labelText l
  | l :: ls => labelText l ++ ',' :: labelsText ls

/-- A line with its label values as they are. -/
def Sample.line (s : Sample) : Str := s.name ++ '{' :: (labelsText s.labels ++ '}' :: ' ' :: s.value)

/-! ### Numbers -/

/-- A decimal that a double can be nearest to. -/
def fits (q : ℚ) : Bool := |nearest q| < doubleBound

/-- The words for an infinity. -/
def isInfinity (s : Str) : Bool := s.map Char.toLower ∈ ["inf".toList, "infinity".toList]

/-- A number after its sign. -/
def isUnsigned (s : Str) : Bool := isInfinity s || ((Double.decimalOf s).map fits).getD false

/-- What stands for a double; a decimal that is too large does not. -/
def isNumber : Str → Bool
  | '-' :: s => isUnsigned s
  | '+' :: s => isUnsigned s
  | s => isUnsigned s || s.map Char.toLower = "nan".toList

/-! ### Reading -/

def isLabelChar (c : Char) : Bool := c.isAlphanum ∨ c = '_'

def isMetricChar (c : Char) : Bool := isLabelChar c ∨ c = ':'

/-- A name: there is something, and no digit first. -/
def isName (p : Char → Bool) : Str → Bool
  | [] => false
  | c :: s => p c ∧ c.isDigit = false ∧ s.all p

/-- What a backslash and this stand for. -/
def unescape : Char → Option Char
  | '\\' => some '\\'
  | '"' => some '"'
  | 'n' => some '\n'
  | _ => none

/-- A label's value after its opening quote, and what follows the closing one. -/
def readValue : Str → Option (Str × Str)
  | [] => none
  | '"' :: s => some ([], s)
  | '\n' :: _ => none
  | ['\\'] => none
  | '\\' :: c :: s => (unescape c).bind fun d => (readValue s).map fun r => (d :: r.1, r.2)
  | c :: s => (readValue s).map fun r => (c :: r.1, r.2)

/-- A label, and what follows it. -/
def readLabel (s : Str) : Option ((Str × Str) × Str) :=
  match s.dropWhile isLabelChar with
  | '=' :: '"' :: t =>
    if isName isLabelChar (s.takeWhile isLabelChar) then
      (readValue t).map fun r => ((s.takeWhile isLabelChar, r.1), r.2)
    else none
  | _ => none

/-- Labels up to the closing brace, and what follows it. -/
def readLabels : ℕ → Str → Option (List (Str × Str) × Str)
  | 0, _ => none
  | n + 1, s =>
    match readLabel s with
    | some (l, ',' :: t) => (readLabels n t).map fun r => (l :: r.1, r.2)
    | some (l, '}' :: t) => some ([l], t)
    | _ => none

/-- Labels after the opening brace. -/
def readBraces : Str → Option (List (Str × Str) × Str)
  | '}' :: s => some ([], s)
  | s => readLabels (s.length + 1) s

/-- A line of the form. -/
def readLine (s : Str) : Option Sample :=
  match s.dropWhile isMetricChar with
  | '{' :: t =>
    match readBraces t with
    | some (labels, ' ' :: value) =>
      if isName isMetricChar (s.takeWhile isMetricChar) ∧ isNumber value then
        some ⟨s.takeWhile isMetricChar, labels, value⟩
      else none
    | _ => none
  | _ => none

/-! ### What reads back -/

/-- There is nothing to escape. -/
def Plain (v : Str) : Prop := ∀ c ∈ v, c ≠ '"' ∧ c ≠ '\\' ∧ c ≠ '\n'

instance (v : Str) : Decidable (Plain v) := inferInstanceAs (Decidable (∀ c ∈ v, c ≠ '"' ∧ c ≠ '\\' ∧ c ≠ '\n'))

theorem readValue_cons {c : Char} (hq : c ≠ '"') (hb : c ≠ '\\') (hn : c ≠ '\n') (s : Str) :
    readValue (c :: s) = (readValue s).map fun r => (c :: r.1, r.2) := by
  rw [readValue]
  all_goals intros; simp_all

theorem readValue_append {v : Str} (h : Plain v) (s : Str) : readValue (v ++ '"' :: s) = some (v, s) := by
  induction v with
  | nil => rfl
  | cons c v ih =>
    obtain ⟨hq, hb, hn⟩ := h c List.mem_cons_self
    rw [List.cons_append, readValue_cons hq hb hn, ih fun d hd => h d (List.mem_cons_of_mem c hd)]
    rfl

/-- A value is no longer than its text, and as long only without escapes. -/
theorem exists_of_readValue : ∀ {s v r : Str}, readValue s = some (v, r) →
    ∃ t, s = t ++ '"' :: r ∧ v.length ≤ t.length ∧ (t.length ≤ v.length → t = v ∧ Plain v) := by
  intro s
  induction s using readValue.induct with
  | case1 => intro v r h; cases h
  | case2 s =>
    intro v r h
    obtain ⟨rfl, rfl⟩ : [] = v ∧ s = r := by simpa [readValue] using h
    exact ⟨[], rfl, le_rfl, fun _ => ⟨rfl, by simp [Plain]⟩⟩
  | case3 s => intro v r h; cases h
  | case4 => intro v r h; cases h
  | case5 c s ih =>
    intro v r h
    rw [readValue] at h
    obtain ⟨d, -, h⟩ := Option.bind_eq_some_iff.mp h
    obtain ⟨⟨w, r'⟩, hr, he⟩ := Option.map_eq_some_iff.mp h
    obtain ⟨rfl, rfl⟩ := Prod.mk.inj he
    obtain ⟨t, rfl, hle, -⟩ := ih hr
    refine ⟨'\\' :: c :: t, rfl, ?_, fun hshort => ?_⟩
    · simp only [List.length_cons]
      omega
    · simp only [List.length_cons] at hshort
      omega
  | case6 c s hq hn hlast hb ih =>
    intro v r h
    have hchar : c ≠ '"' ∧ c ≠ '\\' ∧ c ≠ '\n' := by
      refine ⟨hq, fun he => ?_, hn⟩
      cases s with
      | nil => exact hlast he rfl
      | cons d s => exact hb d s he rfl
    rw [readValue_cons hchar.1 hchar.2.1 hchar.2.2] at h
    obtain ⟨⟨w, r'⟩, hr, he⟩ := Option.map_eq_some_iff.mp h
    obtain ⟨rfl, rfl⟩ := Prod.mk.inj he
    obtain ⟨t, rfl, hle, hplain⟩ := ih hr
    refine ⟨c :: t, rfl, by simpa using hle, fun hshort => ?_⟩
    obtain ⟨rfl, hw⟩ := hplain (by simpa using hshort)
    refine ⟨rfl, fun d hd => ?_⟩
    obtain rfl | hd := List.mem_cons.mp hd
    · exact hchar
    · exact hw d hd

/-- The length of a label's text, and of what follows it. -/
def labelsLength : List (Str × Str) → ℕ
  | [] => 0
  | l :: ls => (labelText l).length + 1 + labelsLength ls

theorem length_le_labelsLength : ∀ ls : List (Str × Str), ls.length ≤ labelsLength ls
  | [] => le_rfl
  | l :: ls => by
    have := length_le_labelsLength ls
    simp only [List.length_cons, labelsLength]
    omega

theorem length_labelText (l : Str × Str) : (labelText l).length = l.1.length + l.2.length + 3 := by
  simp only [labelText, List.length_append, List.length_cons, List.length_nil]
  omega

theorem length_labelsText {ls : List (Str × Str)} (h : ls ≠ []) : (labelsText ls).length + 1 = labelsLength ls := by
  induction ls with
  | nil => exact absurd rfl h
  | cons l ls ih =>
    cases ls with
    | nil => simp [labelsText, labelsLength]
    | cons l' ls =>
      have := ih (by simp)
      simp only [labelsText, labelsLength, List.length_append, List.length_cons] at this ⊢
      omega

/-- A label's text and what follows it, in terms of what was read. -/
theorem exists_of_readLabel {s r : Str} {l : Str × Str} (h : readLabel s = some (l, r)) :
    ∃ t, s = l.1 ++ '=' :: '"' :: (t ++ '"' :: r) ∧ l.2.length ≤ t.length ∧
      (t.length ≤ l.2.length → t = l.2 ∧ Plain l.2) := by
  unfold readLabel at h
  split at h
  · rename_i t hdrop
    split at h
    · obtain ⟨⟨v, r'⟩, hv, he⟩ := Option.map_eq_some_iff.mp h
      obtain ⟨rfl, rfl⟩ := Prod.mk.inj he
      obtain ⟨t', rfl, hle, hplain⟩ := exists_of_readValue hv
      refine ⟨t', ?_, hle, hplain⟩
      rw [← hdrop, List.takeWhile_append_dropWhile]
    · cases h
  · cases h

theorem isLabelChar_of_isName {p : Char → Bool} {name : Str} (h : isName p name) : ∀ c ∈ name, p c := by
  cases name with
  | nil => cases h
  | cons c s =>
    have h : p c ∧ c.isDigit = false ∧ s.all p := by simpa [isName] using h
    intro d hd
    obtain rfl | hd := List.mem_cons.mp hd
    · exact h.1
    · exact List.all_eq_true.mp h.2.2 d hd

/-- A name is read up to what cannot be in it. -/
theorem takeWhile_name {p : Char → Bool} {name : Str} (h : ∀ c ∈ name, p c) {c : Char} (hc : p c = false) (r : Str) :
    (name ++ c :: r).takeWhile p = name ∧ (name ++ c :: r).dropWhile p = c :: r := by
  rw [List.takeWhile_append_of_pos h, List.dropWhile_append_of_pos h, List.takeWhile_cons_of_neg (by simp [hc]),
    List.dropWhile_cons_of_neg (by simp [hc]), List.append_nil]
  exact ⟨rfl, rfl⟩

theorem readLabel_labelText {l : Str × Str} (hname : isName isLabelChar l.1) (hplain : Plain l.2) (r : Str) :
    readLabel (labelText l ++ r) = some (l, r) := by
  have htext : labelText l ++ r = l.1 ++ '=' :: '"' :: (l.2 ++ '"' :: r) := by simp [labelText]
  obtain ⟨htake, hdrop⟩ := takeWhile_name (isLabelChar_of_isName hname) (c := '=') (by decide) ('"' :: (l.2 ++ '"' :: r))
  unfold readLabel
  rw [htext, hdrop]
  show (if _ then _ else _) = _
  rw [htake, if_pos hname, readValue_append hplain]
  rfl

/-- Labels are no longer than their text. -/
theorem labelsLength_le : ∀ {n : ℕ} {s r : Str} {ls : List (Str × Str)}, readLabels n s = some (ls, r) →
    labelsLength ls + r.length ≤ s.length := by
  intro n
  induction n with
  | zero => intro s r ls h; cases h
  | succ n ih =>
    intro s r ls h
    rw [readLabels] at h
    split at h
    · rename_i l t hl
      obtain ⟨⟨ls', r'⟩, hrest, he⟩ := Option.map_eq_some_iff.mp h
      obtain ⟨rfl, rfl⟩ := Prod.mk.inj he
      obtain ⟨text, rfl, hle, -⟩ := exists_of_readLabel hl
      have hlen := ih hrest
      simp only [labelsLength, length_labelText, List.length_append, List.length_cons]
      omega
    · rename_i l t hl
      obtain ⟨rfl, rfl⟩ : [l] = ls ∧ t = r := by simpa using h
      obtain ⟨text, rfl, hle, -⟩ := exists_of_readLabel hl
      simp only [labelsLength, length_labelText, List.length_append, List.length_cons]
      omega
    · cases h

/-- What follows the first label. -/
def others : List (Str × Str) → Str → Str
  | [], r => '}' :: r
  | l :: ls, r => ',' :: (labelsText (l :: ls) ++ '}' :: r)

theorem labelsText_cons (l : Str × Str) (ls : List (Str × Str)) (r : Str) :
    labelsText (l :: ls) ++ '}' :: r = labelText l ++ others ls r := by
  cases ls with
  | nil => rfl
  | cons l' ls => simp [labelsText, others]

theorem length_others (ls : List (Str × Str)) (r : Str) : (others ls r).length = labelsLength ls + 1 + r.length := by
  cases ls with
  | nil => simp [others, labelsLength, Nat.add_comm]
  | cons l ls =>
    have hlen := length_labelsText (List.cons_ne_nil l ls)
    simp only [others, List.length_cons, List.length_append]
    omega

theorem readLabels_labelsText : ∀ {ls : List (Str × Str)} {n : ℕ}, ls ≠ [] → ls.length ≤ n →
    (∀ l ∈ ls, isName isLabelChar l.1) → (∀ l ∈ ls, Plain l.2) → ∀ r,
    readLabels n (labelsText ls ++ '}' :: r) = some (ls, r)
  | [], _, hne, _, _, _, _ => absurd rfl hne
  | _ :: _, 0, _, hlen, _, _, _ => by simp at hlen
  | l :: ls, n + 1, _, hlen, hname, hplain, r => by
    rw [labelsText_cons, readLabels, readLabel_labelText (hname l (by simp)) (hplain l (by simp))]
    cases ls with
    | nil => rfl
    | cons l' ls =>
      have hrest : readLabels n (labelsText (l' :: ls) ++ '}' :: r) = some (l' :: ls, r) :=
        readLabels_labelsText (by simp) (by simpa using hlen) (fun m hm => hname m (List.mem_cons_of_mem l hm))
          (fun m hm => hplain m (List.mem_cons_of_mem l hm)) r
      simp only [others, hrest]
      rfl

/-- The first label of a text without escapes is read as it is only if it is
plain; else too little would be left for the others. -/
theorem plain_of_readLabel {l : Str × Str} {s r : Str} (h : readLabel (labelText l ++ s) = some (l, r))
    (hlen : s.length ≤ r.length) : Plain l.2 ∧ r = s := by
  obtain ⟨t, he, hle, hplain⟩ := exists_of_readLabel h
  have htext : l.2 ++ '"' :: s = t ++ '"' :: r := by simpa [labelText] using he
  have hlength := congrArg List.length htext
  simp only [List.length_append, List.length_cons] at hlength
  obtain ⟨rfl, hp⟩ := hplain (by omega)
  exact ⟨hp, by simpa using (List.append_cancel_left htext).symm⟩

/-- Labels read back only as they are without escapes. -/
theorem plain_of_readLabels : ∀ {ls : List (Str × Str)} {n : ℕ} {r : Str},
    readLabels n (labelsText ls ++ '}' :: r) = some (ls, r) → ∀ l ∈ ls, Plain l.2
  | [], _, _, _ => by simp
  | _ :: _, 0, _, h => by cases h
  | l :: ls, n + 1, r, h => by
    rw [labelsText_cons, readLabels] at h
    split at h
    · rename_i m t hm
      obtain ⟨⟨ls', r'⟩, hrest, he⟩ := Option.map_eq_some_iff.mp h
      obtain ⟨hcons, rfl⟩ := Prod.mk.inj he
      obtain ⟨rfl, rfl⟩ := List.cons.inj hcons
      have hlen : labelsLength ls' + r'.length ≤ t.length := labelsLength_le hrest
      have hother : (others ls' r').length = labelsLength ls' + 1 + r'.length := length_others ls' r'
      obtain ⟨hplain, hfollow⟩ := plain_of_readLabel hm (by simp only [List.length_cons]; omega)
      cases ls' with
      | nil => cases hfollow
      | cons l' ls =>
        have htext : t = labelsText (l' :: ls) ++ '}' :: r' := (List.cons.inj hfollow).2
        rw [htext] at hrest
        have ih := plain_of_readLabels hrest
        intro k hk
        obtain rfl | hk := List.mem_cons.mp hk
        · exact hplain
        · exact ih k hk
    · rename_i m t hm
      obtain ⟨hcons, rfl⟩ : [m] = l :: ls ∧ t = r := by simpa using h
      obtain ⟨rfl, rfl⟩ := List.cons.inj hcons
      obtain ⟨hplain, -⟩ := plain_of_readLabel hm (by simp [others])
      intro k hk
      obtain rfl : k = m := List.mem_singleton.mp hk
      exact hplain
    · cases h

theorem readBraces_labelsText {ls : List (Str × Str)} (hname : ∀ l ∈ ls, isName isLabelChar l.1) (r : Str) :
    readBraces (labelsText ls ++ '}' :: r) = some (ls, r) ↔ ∀ l ∈ ls, Plain l.2 := by
  cases ls with
  | nil => simp [labelsText, readBraces]
  | cons l ls =>
    have hlen : (l :: ls).length ≤ (labelsText (l :: ls) ++ '}' :: r).length + 1 := by
      have hle := length_le_labelsLength (l :: ls)
      have htext := length_labelsText (List.cons_ne_nil l ls)
      rw [List.length_append]
      omega
    have hstart : readBraces (labelsText (l :: ls) ++ '}' :: r) =
        readLabels ((labelsText (l :: ls) ++ '}' :: r).length + 1) (labelsText (l :: ls) ++ '}' :: r) := by
      -- a name does not start with a brace
      obtain ⟨name, value⟩ := l
      have hfirst : isName isLabelChar name := hname _ List.mem_cons_self
      cases name with
      | nil => cases hfirst
      | cons c name =>
        have hc : isLabelChar c := isLabelChar_of_isName hfirst c List.mem_cons_self
        have hbrace : c ≠ '}' := by
          rintro rfl
          exact absurd hc (by decide)
        rw [labelsText_cons, labelText, List.cons_append, readBraces]
        simpa using hbrace
    rw [hstart]
    exact ⟨plain_of_readLabels, fun hplain => readLabels_labelsText (by simp) hlen hname hplain r⟩

/-- **What reads back.** A line that is written without escapes reads back as
what it was written from if and only if there is nothing to escape, and its
value is a number. -/
theorem readLine_line_iff {s : Sample} (hname : isName isMetricChar s.name)
    (hlabels : ∀ l ∈ s.labels, isName isLabelChar l.1) :
    readLine s.line = some s ↔ (∀ l ∈ s.labels, Plain l.2) ∧ isNumber s.value := by
  obtain ⟨htake, hdrop⟩ := takeWhile_name (isLabelChar_of_isName hname) (c := '{') (by decide)
    (labelsText s.labels ++ '}' :: ' ' :: s.value)
  rw [← readBraces_labelsText hlabels (' ' :: s.value)]
  unfold readLine Sample.line
  rw [hdrop, htake]
  constructor
  · intro h
    simp only at h
    split at h
    · rename_i labels value hread
      split at h
      · rename_i hok
        obtain ⟨-, rfl, rfl⟩ : s.name = s.name ∧ labels = s.labels ∧ value = s.value := by
          simpa [Sample.ext_iff] using h
        exact ⟨hread, hok.2⟩
      · cases h
    · cases h
  · rintro ⟨hread, hnum⟩
    simp only [hread]
    rw [if_pos ⟨hname, hnum⟩]

/-! ### Numbers of Python -/

theorem isInfinity_cons {c : Char} (h : c.toLower ≠ 'i') (s : Str) : isInfinity (c :: s) = false := by
  have hinf : ∀ t : Str, List.map Char.toLower (c :: s) ≠ 'i' :: t := fun t he => h (List.cons.inj he).1
  simp only [isInfinity, decide_eq_false_iff_not, List.mem_cons, List.not_mem_nil, or_false, not_or]
  exact ⟨hinf _, hinf _⟩

/-- What is a number after a sign is one without. -/
theorem isNumber_of_isUnsigned {s : Str} (h : isUnsigned s) : isNumber s := by
  cases s with
  | nil => exact absurd h (by decide)
  | cons c s =>
    have hsign : ∀ c, c = '-' ∨ c = '+' → isUnsigned (c :: s) = false := by
      rintro c (rfl | rfl)
      · simp [isUnsigned, isInfinity_cons, Double.decimalOf]
      · simp [isUnsigned, isInfinity_cons, Double.decimalOf]
    have hminus : c ≠ '-' := fun he => by simp [hsign c (.inl he)] at h
    have hplus : c ≠ '+' := fun he => by simp [hsign c (.inr he)] at h
    rw [isNumber]
    · simp [h]
    · simpa using hminus
    · simpa using hplus

theorem toLower_of_isDigit {c : Char} (h : c.isDigit) : c.toLower = c := by
  have hle : c.toNat ≤ 57 := by
    simp only [Char.isDigit, Bool.and_eq_true, decide_eq_true_eq, ge_iff_le, UInt32.le_iff_toNat_le] at h
    exact h.2
  unfold Char.toLower
  refine dif_neg fun hupper => ?_
  have hge : 65 ≤ c.toNat := UInt32.le_iff_toNat_le.mp hupper.1
  omega

theorem decimalOf_digits {s : Str} (hne : s ≠ []) (h : ∀ c ∈ s, c.isDigit) :
    Double.decimalOf s = some (Nat.ofDigitChars 10 s 0 : ℚ) := by
  have htake : s.takeWhile Char.isDigit = s := List.takeWhile_eq_self_iff.mpr h
  have hdrop : s.dropWhile Char.isDigit = [] := List.dropWhile_eq_nil_iff.mpr h
  unfold Double.decimalOf
  rw [htake, hdrop]
  show (if s = [] then none else some (Double.scaled s 0 0)) = _
  rw [if_neg hne]
  simp [Double.scaled]

theorem isUnsigned_digits {s : Str} (hne : s ≠ []) (h : ∀ c ∈ s, c.isDigit) :
    isUnsigned s = fits (Nat.ofDigitChars 10 s 0) := by
  have hword : isInfinity s = false := by
    cases s with
    | nil => exact absurd rfl hne
    | cons c s =>
      refine isInfinity_cons (fun hlow => ?_) s
      have hc := h c List.mem_cons_self
      rw [toLower_of_isDigit hc] at hlow
      exact absurd (hlow ▸ hc) (by decide)
  simp [isUnsigned, hword, decimalOf_digits hne h]

theorem isUnsigned_toDigits (n : ℕ) : isUnsigned (Nat.toDigits 10 n) = fits n := by
  rw [isUnsigned_digits (toDigits_ne_nil n) (isDigit_toDigits n), Nat.ofDigitChars_ten_toDigits]

/-- An integer that prints is a number if it is no larger than doubles are. -/
theorem isNumber_str {n : ℤ} {t : Str} (h : str n = some t) : isNumber t = fits n.natAbs := by
  have htext : t = if n < 0 then '-' :: Nat.toDigits 10 n.natAbs else Nat.toDigits 10 n.natAbs := by
    unfold str at h
    simp only at h
    split at h
    · exact (Option.some.inj h).symm
    · cases h
  rw [htext, ← isUnsigned_toDigits]
  split
  · rfl
  · cases hds : Nat.toDigits 10 n.natAbs with
    | nil => exact absurd hds (toDigits_ne_nil _)
    | cons c s =>
      have hdigit : c.isDigit := isDigit_toDigits n.natAbs c (hds ▸ List.mem_cons_self)
      have hlow : c.toLower ≠ 'n' := by
        rw [toLower_of_isDigit hdigit]
        rintro rfl
        exact absurd hdigit (by decide)
      have hnan : List.map Char.toLower (c :: s) ≠ "nan".toList := fun he => hlow (List.cons.inj he).1
      rw [isNumber]
      · simp only [hnan, decide_false, Bool.or_false]
      · rintro s' he
        obtain ⟨rfl, -⟩ := List.cons.inj he
        exact absurd hdigit (by decide)
      · rintro s' he
        obtain ⟨rfl, -⟩ := List.cons.inj he
        exact absurd hdigit (by decide)

theorem isUnsigned_shortest {q : ℚ} (h : |q| < doubleBound) : isUnsigned (shortest q) := by
  unfold shortest
  cases hfind : (((List.range 17).flatMap fun n => candidates q (n + 1)).find? (readsBack q)) with
  | none => decide +kernel
  | some t =>
    have hback : (Double.decimalOf t).map nearest = some q := by simpa [readsBack] using List.find?_some hfind
    obtain ⟨r, hr, hq⟩ := Option.map_eq_some_iff.mp hback
    have hfits : fits r := by
      simp only [fits, hq, decide_eq_true_eq]
      exact h
    simp [isUnsigned, hr, hfits]

theorem fits_of_le {n k : ℕ} (hk : k < 1024) (h : n ≤ 2 ^ k) : fits n := by
  have habs : |(n : ℚ)| ≤ 2 ^ k := by
    rw [Nat.abs_cast]
    exact_mod_cast h
  have hlt : |nearest (n : ℚ)| < doubleBound :=
    (abs_nearest_le habs).trans_lt (pow_lt_pow_right₀ (by norm_num) hk)
  exact decide_eq_true hlt

theorem fits_of_isDouble {n : ℤ} (h : IsDouble n) : fits n.natAbs := by
  have habs : ((n.natAbs : ℕ) : ℚ) = |(n : ℚ)| := by rw [Nat.cast_natAbs, Int.cast_abs]
  have hlt : |nearest (n.natAbs : ℕ)| < doubleBound := by
    rw [habs, nearest_abs h.1, abs_abs]
    exact h.2
  exact decide_eq_true hlt

/-- Every float prints as a number. -/
theorem isNumber_repr (x : PyFloat) : isNumber x.repr := by
  unfold PyFloat.repr
  split
  · decide +kernel
  · decide +kernel
  · decide +kernel
  · rename_i q hq _
    split
    · split
      · decide +kernel
      · decide +kernel
    · split
      · exact isUnsigned_shortest (by rw [abs_neg]; exact hq.2)
      · exact isNumber_of_isUnsigned (isUnsigned_shortest hq.2)

end Exposition
end MqResiliency
