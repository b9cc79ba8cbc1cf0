/-
# Laws of JSON text

What the reader made of a text is kept in reading on, so each law is about the
pieces. An object that `json.dumps` wrote reads back (`loads_objText`). Space
at the end of a text does not matter (`loads_append_space`), and a text that
is blank or has a value does not go on with a space that is none to JSON
(`loads_otherSpace`).
-/
import MqResiliency.Lib.Json

namespace MqResiliency
namespace Py

open Conv (textOf digitsOf digitsOf_ofDigitChars)

variable {F : Type}

/-! ### Reading on -/

variable {fl : Floats F}

theorem Reader.run_append (r : Reader F) (s t : Str) :
    r.run fl (s ++ t) = (r.run fl s).bind fun r' => r'.run fl t := List.foldlM_append

theorem Reader.run_cons (r : Reader F) (c : Char) (s : Str) :
    r.run fl (c :: s) = (r.step fl c).bind fun r' => r'.run fl s := rfl

@[simp] theorem Reader.run_nil (r : Reader F) : r.run fl [] = .ok r := rfl

/-- What is read of a text is kept in reading on. -/
theorem Reader.run_append_ok {r r' : Reader F} {s t : Str} (h : r.run fl s = .ok r') :
    r.run fl (s ++ t) = r'.run fl t := by
  rw [run_append, h]
  rfl

/-! ### Strings that were written -/

section
variable {mk : Str → TextPhase → Reader F} {R : Str → Reader F}

theorem hexValue_digitChar : ∀ d, d < 16 → hexValue (Nat.digitChar d) = some d := by decide

theorem run_step_ok {r r' : Reader F} {c : Char} {s : Str} (h : r.step fl c = .ok r') :
    r.run fl (c :: s) = r'.run fl s := by
  rw [Reader.run_cons, h]
  rfl

/-- The four digits of a `\u`, in either half of a pair. -/
theorem run_hex4 {phase : ℕ → ℕ → TextPhase} {last : ℕ → TextStep} (buf : Str)
    (hmk : ∀ b p c, (mk b p).step fl c = (textStep b p c).map (TextStep.elim R mk))
    (hphase : ∀ acc missing c d, hexValue c = some d → textStep buf (phase acc missing) c =
      .ok (if missing ≤ 1 then last (acc * 16 + d) else .more buf (phase (acc * 16 + d) (missing - 1))))
    {n : ℕ} (hn : n < 65536) :
    (mk buf (phase 0 4)).run fl (hex4 n) = .ok ((last n).elim R mk) := by
  have hdigit : ∀ k, hexValue (Nat.digitChar (k % 16)) = some (k % 16) := fun k =>
    hexValue_digitChar (k % 16) (Nat.mod_lt k (by omega))
  have hmore : ∀ acc missing k, 1 < missing → (mk buf (phase acc missing)).step fl (Nat.digitChar (k % 16)) =
      .ok (mk buf (phase (acc * 16 + k % 16) (missing - 1))) := by
    intro acc missing k hm
    rw [hmk, hphase acc missing _ _ (hdigit k), if_neg (by omega)]
    rfl
  have hlast : ∀ acc k, (mk buf (phase acc 1)).step fl (Nat.digitChar (k % 16)) =
      .ok ((last (acc * 16 + k % 16)).elim R mk) := by
    intro acc k
    rw [hmk, hphase acc 1 _ _ (hdigit k), if_pos (le_refl 1)]
    rfl
  have hvalue : (((0 * 16 + n / 4096 % 16) * 16 + n / 256 % 16) * 16 + n / 16 % 16) * 16 + n % 16 = n := by omega
  unfold hex4
  rw [run_step_ok (hmore 0 4 _ (by omega)), run_step_ok (hmore _ 3 _ (by omega)),
    run_step_ok (hmore _ 2 _ (by omega)), run_step_ok (hlast _ _), hvalue, Reader.run_nil]

theorem run_unicodeEscape (buf : Str)
    (hmk : ∀ b p c, (mk b p).step fl c = (textStep b p c).map (TextStep.elim R mk)) {n : ℕ} (hn : n < 65536) :
    (mk buf .plain).run fl (unicodeEscape n) = .ok ((unicodeEnd buf n).elim R mk) := by
  have hesc : (mk buf .plain).step fl '\\' = .ok (mk buf .esc) := hmk buf .plain '\\'
  have hu : (mk buf .esc).step fl 'u' = .ok (mk buf (.hex 0 4)) := hmk buf .esc 'u'
  unfold unicodeEscape
  rw [run_step_ok hesc, run_step_ok hu]
  refine run_hex4 buf hmk (fun acc missing c d hd => ?_) hn
  simp only [textStep, hd]

theorem run_lowHalf (buf : Str) (hi : ℕ)
    (hmk : ∀ b p c, (mk b p).step fl c = (textStep b p c).map (TextStep.elim R mk)) {n : ℕ} (hn : n < 65536) :
    (mk buf (.high hi)).run fl (unicodeEscape n) = .ok ((pairEnd buf hi n).elim R mk) := by
  have hesc : (mk buf (.high hi)).step fl '\\' = .ok (mk buf (.highEsc hi)) := hmk buf (.high hi) '\\'
  have hu : (mk buf (.highEsc hi)).step fl 'u' = .ok (mk buf (.highHex hi 0 4)) := hmk buf (.highEsc hi) 'u'
  unfold unicodeEscape
  rw [run_step_ok hesc, run_step_ok hu]
  refine run_hex4 buf hmk (fun acc missing c d hd => ?_) hn
  simp only [textStep, hd]

theorem charOf_toNat (c : Char) : charOf c.toNat = c := by
  have hvalid : c.toNat.isValidChar := c.valid
  rw [charOf, if_pos hvalid, Char.ofNat_toNat]

theorem toNat_not_surrogate (c : Char) : c.toNat < 0xd800 ∨ 0xdfff < c.toNat ∧ c.toNat < 0x110000 := c.valid

/-- A character that was written. -/
theorem run_quotedChar (buf : Str)
    (hmk : ∀ b p c, (mk b p).step fl c = (textStep b p c).map (TextStep.elim R mk)) (c : Char) :
    (mk buf .plain).run fl (quotedChar c) = .ok (mk (buf ++ [c]) .plain) := by
  have hbackslash : (mk buf .plain).step fl '\\' = .ok (mk buf .esc) := hmk buf .plain '\\'
  have hescaped : ∀ d e : Char, escStep buf d = .ok (.more (buf ++ [e]) .plain) →
      (mk buf .plain).run fl ['\\', d] = .ok (mk (buf ++ [e]) .plain) := by
    intro d e hd
    have hstep : (mk buf .esc).step fl d = .ok (mk (buf ++ [e]) .plain) := by
      rw [hmk]
      show (escStep buf d).map _ = _
      rw [hd]
      rfl
    rw [run_step_ok hbackslash, run_step_ok hstep, Reader.run_nil]
  unfold quotedChar
  split
  · exact hescaped '"' '"' rfl
  · exact hescaped '\\' '\\' rfl
  · exact hescaped 'n' '\n' rfl
  · exact hescaped 'r' '\r' rfl
  · exact hescaped 't' '\t' rfl
  · rename_i hquote hslash _ _ _
    by_cases hff : c.toNat = 12
    · rw [if_pos hff]
      have hc : c = Char.ofNat 12 := by rw [← hff, Char.ofNat_toNat]
      rw [hc]
      exact hescaped 'f' _ rfl
    rw [if_neg hff]
    by_cases hbs : c.toNat = 8
    · rw [if_pos hbs]
      have hc : c = Char.ofNat 8 := by rw [← hbs, Char.ofNat_toNat]
      rw [hc]
      exact hescaped 'b' _ rfl
    rw [if_neg hbs]
    by_cases hascii : 32 ≤ c.toNat ∧ c.toNat ≤ 126
    · rw [if_pos hascii]
      have hplain : textStep buf .plain c = .ok (.more (buf ++ [c]) .plain) := by
        show plainStep buf c = _
        rw [plainStep, if_neg hquote, if_neg hslash, if_neg (by omega)]
      have hstep : (mk buf .plain).step fl c = .ok (mk (buf ++ [c]) .plain) := by
        rw [hmk, hplain]
        rfl
      rw [run_step_ok hstep, Reader.run_nil]
    rw [if_neg hascii]
    have hrange := toNat_not_surrogate c
    by_cases hbmp : c.toNat < 0x10000
    · rw [if_pos hbmp, run_unicodeEscape buf hmk hbmp, unicodeEnd, if_neg (by omega), charOf_toNat]
      rfl
    · -- the two halves of a pair
      rw [if_neg hbmp]
      have hhi : 0xd800 ≤ 0xd800 + (c.toNat - 0x10000) / 0x400 ∧ 0xd800 + (c.toNat - 0x10000) / 0x400 ≤ 0xdbff := by
        omega
      have hlo : 0xdc00 ≤ 0xdc00 + (c.toNat - 0x10000) % 0x400 ∧ 0xdc00 + (c.toNat - 0x10000) % 0x400 ≤ 0xdfff := by
        omega
      have hfirst := run_unicodeEscape buf hmk (show 0xd800 + (c.toNat - 0x10000) / 0x400 < 65536 by omega)
      rw [unicodeEnd, if_pos hhi] at hfirst
      have hvalue : 0x10000 + (0xd800 + (c.toNat - 0x10000) / 0x400 - 0xd800) * 0x400 +
          (0xdc00 + (c.toNat - 0x10000) % 0x400 - 0xdc00) = c.toNat := by omega
      rw [Reader.run_append_ok hfirst]
      show (mk buf (.high _)).run fl _ = _
      rw [run_lowHalf buf _ hmk (by omega), pairEnd, if_pos hlo, hvalue, charOf_toNat]
      rfl

/-- A string that was written, from its opening quote on. -/
theorem run_quoted (hmk : ∀ b p c, (mk b p).step fl c = (textStep b p c).map (TextStep.elim R mk)) (s : Str) :
    ∀ buf, (mk buf .plain).run fl (s.flatMap quotedChar ++ ['"']) = .ok (R (buf ++ s)) := by
  induction s with
  | nil =>
    intro buf
    have hclose : (mk buf .plain).step fl '"' = .ok (R buf) := hmk buf .plain '"'
    rw [List.flatMap_nil, List.nil_append, run_step_ok hclose, List.append_nil, Reader.run_nil]
  | cons c s ih =>
    intro buf
    rw [List.flatMap_cons, List.append_assoc, Reader.run_append_ok (run_quotedChar buf hmk c), ih,
      List.append_assoc]
    rfl

end

/-! ### Values that were written -/

/-- A character that ends a number. -/
def endsNumber (c : Char) : Bool := c = ',' ∨ c = '}' ∨ c = ']' ∨ isJsonSpace c

/-- A number has digits, signs, a point and an exponent. -/
def isNumChar (c : Char) : Bool := c.isDigit ∨ c = '.' ∨ c = 'e' ∨ c = 'E' ∨ c = '+' ∨ c = '-'

theorem isNumChar_of_numStep {phase q : NumPhase} {c : Char} (h : numStep phase c = some q) : isNumChar c := by
  have hzero : c = '0' → c.isDigit = true := fun hc => by rw [hc]; rfl
  cases phase <;> grind [numStep, isNonZeroDigit, isNumChar]

theorem numStep_of_endsNumber {c : Char} (hc : endsNumber c) (phase : NumPhase) : numStep phase c = none := by
  have hcases : c = ',' ∨ c = '}' ∨ c = ']' ∨ c = ' ' ∨ c = '\t' ∨ c = '\n' ∨ c = '\r' := by
    simpa [endsNumber, isJsonSpace] using hc
  have hnum : isNumChar c = false := by
    rcases hcases with rfl | rfl | rfl | rfl | rfl | rfl | rfl <;> decide
  by_contra h
  obtain ⟨q, hq⟩ := Option.ne_none_iff_exists'.mp h
  rw [isNumChar_of_numStep hq] at hnum
  cases hnum

/-- The text reads as the value, whatever waits for it, once something ends it. -/
def ReadsAs (fl : Floats F) (t : Str) (v : Json F) : Prop :=
  ∀ stack c, endsNumber c → (⟨stack, .value⟩ : Reader F).run fl (t ++ [c]) = between (complete stack v) c

theorem complete_step (stack : List (Ctx F)) (v : Json F) (c : Char) :
    (complete stack v).step fl c = between (complete stack v) c := by
  match stack with
  | [] | .item _ :: _ | .member _ _ :: _ => rfl

theorem run_snoc (r : Reader F) (s : Str) (c : Char) :
    r.run fl (s ++ [c]) = (r.run fl s).bind fun r' => r'.step fl c := by
  rw [Reader.run_append]
  congr 1
  funext r'
  rw [Reader.run_cons]
  cases r'.step fl c <;> rfl

/-- What is complete with its last character. -/
theorem readsAs_of_run {t : Str} {v : Json F}
    (h : ∀ stack, (⟨stack, .value⟩ : Reader F).run fl t = .ok (complete stack v)) : ReadsAs fl t v := by
  intro stack c _
  rw [run_snoc, h stack]
  exact complete_step stack v c

theorem readsAs_quoted (s : Str) : ReadsAs fl (quoted s) (.str s) := by
  refine readsAs_of_run fun stack => ?_
  have hopen : (⟨stack, .value⟩ : Reader F).step fl '"' = .ok ⟨stack, .text [] .plain⟩ := rfl
  show Reader.run fl _ ('"' :: (s.flatMap quotedChar ++ ['"'])) = _
  rw [run_step_ok hopen]
  let mk : Str → TextPhase → Reader F := fun b p => ⟨stack, .text b p⟩
  let R : Str → Reader F := fun s => complete stack (.str s)
  have hmk : ∀ b p c, (mk b p).step fl c = (textStep b p c).map (TextStep.elim R mk) := fun _ _ _ => rfl
  exact run_quoted hmk s []

theorem readsAs_null : ReadsAs fl "null".toList .null := readsAs_of_run fun _ => rfl

/-- A number's text: where the automaton of its characters ends. -/
def numRun (phase : NumPhase) (s : Str) : Option NumPhase := s.foldlM numStep phase

theorem run_num {stack : List (Ctx F)} : ∀ {s text : Str} {phase phase' : NumPhase},
    numRun phase s = some phase' →
    (⟨stack, .num text phase⟩ : Reader F).run fl s = .ok ⟨stack, .num (text ++ s) phase'⟩
  | [], text, phase, phase', h => by
    cases h
    rw [List.append_nil, Reader.run_nil]
  | c :: s, text, phase, phase', h => by
    have hbind : (numStep phase c).bind (fun q => numRun q s) = some phase' := h
    obtain ⟨q, hq, hs⟩ := Option.bind_eq_some_iff.mp hbind
    have hno : ¬ (phase = .minus ∧ c = 'I') := by
      intro ⟨hm, hc⟩
      have hI : numStep .minus 'I' = none := rfl
      rw [hm, hc, hI] at hq
      cases hq
    have hstep : (⟨stack, .num text phase⟩ : Reader F).step fl c = .ok ⟨stack, .num (text ++ [c]) q⟩ := by
      simp only [Reader.step, if_neg hno, hq]
    rw [run_step_ok hstep, run_num hs, List.append_assoc]
    rfl

/-- How a number starts. -/
def numStart (c : Char) : Option NumPhase :=
  if c = '-' then some .minus else if c = '0' then some .zero else if isNonZeroDigit c then some .int else none

/-- A number by its characters: the phase in which it ends. -/
def numPhase : Str → Option NumPhase
  | [] => none
  | c :: s => (numStart c).bind fun phase => numRun phase s

theorem step_numStart {stack : List (Ctx F)} {c : Char} {phase : NumPhase} (h : numStart c = some phase) :
    (⟨stack, .value⟩ : Reader F).step fl c = .ok ⟨stack, .num [c] phase⟩ := by
  unfold numStart at h
  show between ⟨stack, .value⟩ c = _
  by_cases hm : c = '-'
  · subst hm
    rw [if_pos rfl] at h
    cases h
    rfl
  by_cases hz : c = '0'
  · subst hz
    cases h
    rfl
  by_cases hd : isNonZeroDigit c
  · rw [if_neg hm, if_neg hz, if_pos hd] at h
    cases h
    have hdigit : c.isDigit := by
      simp only [isNonZeroDigit, Bool.decide_and, Bool.and_eq_true, decide_eq_true_eq] at hd
      exact hd.1
    have hne : ∀ d : Char, d.isDigit = false → c ≠ d := fun d hd hcd => by
      rw [hcd, hd] at hdigit
      exact absurd hdigit (by simp)
    have hspace : isJsonSpace c = false := by
      simp [isJsonSpace, hne ' ' (by decide), hne '\t' (by decide), hne '\n' (by decide), hne '\r' (by decide)]
    have hstart : startValue stack c = .ok ⟨stack, .num [c] .int⟩ := by
      simp only [startValue, hm, hz, hd, hne '"' (by decide), hne '{' (by decide), hne '[' (by decide),
        hne 'n' (by decide), hne 't' (by decide), hne 'f' (by decide), hne 'N' (by decide), hne 'I' (by decide),
        if_false, if_true]
    rw [between, hspace]
    exact hstart
  · rw [if_neg hm, if_neg hz, if_neg hd] at h
    cases h

/-- A number ends at the next character that it does not go on with. -/
theorem readsAs_num {t : Str} {phase : NumPhase} {v : Json F} (ht : numPhase t = some phase)
    (hv : numEnd fl t phase = .ok v) : ReadsAs fl t v := by
  intro stack c hc
  match t with
  | [] => cases ht
  | d :: t =>
    obtain ⟨q, hq, hrun⟩ := Option.bind_eq_some_iff.mp ht
    have hread : (⟨stack, .value⟩ : Reader F).run fl (d :: t) = .ok ⟨stack, .num (d :: t) phase⟩ := by
      rw [run_step_ok (step_numStart hq), run_num hrun]
      rfl
    have hnotI : ¬ (phase = .minus ∧ c = 'I') := by
      intro ⟨_, hcI⟩
      rw [hcI] at hc
      exact absurd hc (by decide)
    rw [run_snoc, hread]
    show Reader.step fl ⟨stack, .num (d :: t) phase⟩ c = _
    simp only [Reader.step, if_neg hnotI, numStep_of_endsNumber hc, hv]
    rfl

/-- The text of a float: it has a fraction or an exponent. -/
def isFloatText (t : Str) : Bool := numPhase t = some .frac ∨ numPhase t = some .expDigits

theorem readsAs_float {t : Str} (ht : isFloatText t) : ReadsAs fl t (.float (fl.ofText t)) := by
  have hphase : numPhase t = some .frac ∨ numPhase t = some .expDigits := by simpa [isFloatText] using ht
  rcases hphase with h | h
  · exact readsAs_num h rfl
  · exact readsAs_num h rfl

theorem numRun_digits : ∀ {s : Str}, (∀ c ∈ s, c.isDigit) → numRun .int s = some .int
  | [], _ => rfl
  | c :: s, h => by
    have hstep : numStep .int c = some .int := by simp [numStep, h c List.mem_cons_self]
    show (numStep .int c).bind (fun q => numRun q s) = _
    rw [hstep]
    exact numRun_digits fun d hd => h d (List.mem_cons_of_mem c hd)

/-- No integer but 0 is written with a leading zero. -/
theorem head_toDigits {n : ℕ} (hn : 0 < n) {d : Char} {ds : Str} (h : Nat.toDigits 10 n = d :: ds) : d ≠ '0' := by
  intro hd
  subst hd
  have hds : ∀ c ∈ ds, c.isDigit := fun c hc => isDigit_toDigits n c (h ▸ List.mem_cons_of_mem _ hc)
  have hvalue : Nat.ofDigitChars 10 ds 0 = n := by
    have hall := Nat.ofDigitChars_toDigits (b := 10) (n := n) (by omega) (by omega)
    rw [h, Nat.ofDigitChars_cons] at hall
    simpa using hall
  have hne : ds ≠ [] := by
    intro hnil
    rw [hnil] at hvalue
    simp at hvalue
    omega
  have hlen := digitsOf_ofDigitChars hne hds
  rw [hvalue, digitsOf, Int.natAbs_natCast, h, List.length_cons] at hlen
  omega

/-- The digits of a number, alone or after a sign. -/
theorem numRun_toDigits (n : ℕ) : ∃ phase, (phase = .zero ∨ phase = .int) ∧
    numPhase (Nat.toDigits 10 n) = some phase ∧ numRun .minus (Nat.toDigits 10 n) = some phase := by
  rcases Nat.eq_zero_or_pos n with rfl | hn
  · exact ⟨.zero, .inl rfl, rfl, rfl⟩
  · obtain ⟨d, ds, h⟩ := List.exists_cons_of_ne_nil (toDigits_ne_nil n)
    have hzero := head_toDigits hn h
    have hdigit : ∀ c ∈ d :: ds, c.isDigit := h ▸ isDigit_toDigits n
    have hd : isNonZeroDigit d := by simp [isNonZeroDigit, hzero, hdigit d List.mem_cons_self]
    have hsign : d ≠ '-' := by
      intro hm
      have := hdigit d List.mem_cons_self
      rw [hm] at this
      cases this
    have hrun := numRun_digits fun c hc => hdigit c (List.mem_cons_of_mem d hc)
    refine ⟨.int, .inr rfl, ?_, ?_⟩
    · rw [h]
      show (numStart d).bind _ = _
      rw [numStart, if_neg hsign, if_neg hzero, if_pos hd]
      exact hrun
    · rw [h]
      show (numStep .minus d).bind (fun q => numRun q ds) = _
      rw [numStep, if_neg hzero, if_pos hd]
      exact hrun

theorem intOf_textOf {n : ℤ} (hn : digitsOf n ≤ maxStrDigits) : intOf (textOf n) = .ok n := by
  have hvalue : (Nat.ofDigitChars 10 (Nat.toDigits 10 n.natAbs) 0 : ℤ) = n.natAbs := by
    rw [Nat.ofDigitChars_toDigits (by omega) (by omega)]
  have hlen : (Nat.toDigits 10 n.natAbs).length ≤ maxStrDigits := hn
  unfold textOf
  by_cases hneg : n < 0
  · rw [if_pos hneg, intOf, if_pos hlen, hvalue]
    congr 1
    omega
  · rw [if_neg hneg]
    unfold intOf
    split
    · rename_i ds h
      have := isDigit_toDigits n.natAbs '-' (h ▸ List.mem_cons_self)
      cases this
    · rw [if_pos hlen, hvalue]
      congr 1
      omega

theorem readsAs_int {n : ℤ} (hn : digitsOf n ≤ maxStrDigits) : ReadsAs fl (textOf n) (.int n) := by
  obtain ⟨phase, hphase, hpos, hneg⟩ := numRun_toDigits n.natAbs
  have htext : numPhase (textOf n) = some phase := by
    unfold textOf
    split
    · exact hneg
    · exact hpos
  refine readsAs_num htext ?_
  have hend : numEnd fl (textOf n) phase = (intOf (textOf n)).map .int := by
    rcases hphase with rfl | rfl <;> rfl
  rw [hend, intOf_textOf hn]
  rfl

/-! ### Objects that were written -/

theorem ReadsAs.run {t : Str} {v : Json F} (h : ReadsAs fl t v) (stack : List (Ctx F)) {c : Char}
    (hc : endsNumber c) (rest : Str) :
    (⟨stack, .value⟩ : Reader F).run fl (t ++ c :: rest) = (complete stack v).run fl (c :: rest) := by
  have hsplit : t ++ c :: rest = (t ++ [c]) ++ rest := by simp
  rw [hsplit, Reader.run_append, h stack c hc, Reader.run_cons, complete_step]

theorem run_spaces {r : Reader F} (hr : ∀ c, r.step fl c = between r c) : ∀ {s : Str},
    (∀ c ∈ s, isJsonSpace c) → ∀ rest, r.run fl (s ++ rest) = r.run fl rest
  | [], _, _ => rfl
  | c :: s, h, rest => by
    have hstep : r.step fl c = .ok r := by rw [hr, between, if_pos (h c List.mem_cons_self)]
    rw [List.cons_append, run_step_ok hstep]
    exact run_spaces hr (fun d hd => h d (List.mem_cons_of_mem c hd)) rest

/-- One member, from its opening quote on. -/
theorem run_member {r : Reader F} {stack : List (Ctx F)} {ps : List (Str × Json F)} {key t : Str} {v : Json F}
    (hr : r.step fl '"' = .ok ⟨stack, .keyText ps [] .plain⟩) (ht : ReadsAs fl t v) {c : Char}
    (hc : endsNumber c) (rest : Str) :
    r.run fl (memberText (key, t) ++ c :: rest) =
      (⟨stack, .afterMember (ps ++ [(key, v)])⟩ : Reader F).run fl (c :: rest) := by
  let mk : Str → TextPhase → Reader F := fun b p => ⟨stack, .keyText ps b p⟩
  let R : Str → Reader F := fun s => ⟨stack, .colon ps s⟩
  have hmk : ∀ b p c, (mk b p).step fl c = (textStep b p c).map (TextStep.elim R mk) := fun _ _ _ => rfl
  have hkey : r.run fl (quoted key) = .ok ⟨stack, .colon ps key⟩ := by
    show r.run fl ('"' :: (key.flatMap quotedChar ++ ['"'])) = _
    rw [run_step_ok hr]
    exact run_quoted hmk key []
  have hcolon : (⟨stack, .colon ps key⟩ : Reader F).run fl ": ".toList = .ok ⟨.member ps key :: stack, .value⟩ := rfl
  have hsplit : memberText (key, t) ++ c :: rest = quoted key ++ (": ".toList ++ (t ++ c :: rest)) := by
    simp [memberText]
  rw [hsplit, Reader.run_append_ok hkey, Reader.run_append_ok hcolon, ht.run _ hc]
  rfl

/-- The members of an object, each with the value that its text reads as. -/
def texts (ms : List (Str × Str × Json F)) : List (Str × Str) := ms.map fun m => (m.1, m.2.1)

def members (ms : List (Str × Str × Json F)) : List (Str × Json F) := ms.map fun m => (m.1, m.2.2)

theorem run_members {stack : List (Ctx F)} {sep : Str} (hsep : ∀ c ∈ sep, isJsonSpace c) {c : Char}
    (hc : endsNumber c) (rest : Str) : ∀ (ms : List (Str × Str × Json F)) {m : Str × Str × Json F} {r : Reader F}
    {ps : List (Str × Json F)}, (∀ m' ∈ m :: ms, ReadsAs fl m'.2.1 m'.2.2) →
    r.step fl '"' = .ok ⟨stack, .keyText ps [] .plain⟩ →
    r.run fl ((',' :: sep).intercalate ((texts (m :: ms)).map memberText) ++ c :: rest) =
      (⟨stack, .afterMember (ps ++ members (m :: ms))⟩ : Reader F).run fl (c :: rest)
  | [], m, r, ps, hms, hr => by
    have hone : (',' :: sep).intercalate ((texts [m]).map memberText) = memberText (m.1, m.2.1) := by
      simp [texts, List.intercalate]
    rw [hone]
    exact run_member hr (hms m List.mem_cons_self) hc rest
  | m' :: ms, m, r, ps, hms, hr => by
    have hmore : (',' :: sep).intercalate ((texts (m :: m' :: ms)).map memberText) =
        memberText (m.1, m.2.1) ++ (',' :: (sep ++ (',' :: sep).intercalate ((texts (m' :: ms)).map memberText))) := by
      simp [texts, List.intercalate]
    have hcomma : (⟨stack, .afterMember (ps ++ [(m.1, m.2.2)])⟩ : Reader F).step fl ',' =
        .ok ⟨stack, .nextKey (ps ++ [(m.1, m.2.2)])⟩ := rfl
    have hkey : (⟨stack, .nextKey (ps ++ [(m.1, m.2.2)])⟩ : Reader F).step fl '"' =
        .ok ⟨stack, .keyText (ps ++ [(m.1, m.2.2)]) [] .plain⟩ := rfl
    have hnext := run_members hsep hc rest ms (fun m'' hm'' => hms m'' (List.mem_cons_of_mem m hm'')) hkey
    rw [hmore, List.append_assoc, List.cons_append, run_member hr (hms m List.mem_cons_self) rfl,
      run_step_ok hcomma, List.append_assoc, run_spaces (fun _ => rfl) hsep, hnext, List.append_assoc]
    rfl

/-- **An object that was written reads back.** -/
theorem loads_objText {indent sep closing tail : Str} {ms : List (Str × Str × Json F)} (hne : ms ≠ [])
    (hms : ∀ m ∈ ms, ReadsAs fl m.2.1 m.2.2) (hindent : ∀ c ∈ indent, isJsonSpace c)
    (hsep : ∀ c ∈ sep, isJsonSpace c) (hclosing : ∀ c ∈ closing, isJsonSpace c) (htail : ∀ c ∈ tail, isJsonSpace c) :
    loads fl (objText indent sep closing (texts ms) ++ tail) = .ok (.obj (members ms)) := by
  obtain ⟨m, ms, rfl⟩ := List.exists_cons_of_ne_nil hne
  have hopen : (⟨[], .value⟩ : Reader F).step fl '{' = .ok ⟨[], .objOpen⟩ := rfl
  have hclose : (⟨[], .afterMember (members (m :: ms))⟩ : Reader F).step fl '}' =
      .ok ⟨[], .done (.obj (members (m :: ms)))⟩ := rfl
  -- what ends the last value: the first space of `closing`, or the brace
  obtain ⟨c, rest, hend, hc⟩ : ∃ c rest, closing ++ '}' :: tail = c :: rest ∧ endsNumber c := by
    cases closing with
    | nil => exact ⟨'}', tail, rfl, rfl⟩
    | cons c closing =>
      refine ⟨c, closing ++ '}' :: tail, rfl, ?_⟩
      simp [endsNumber, hclosing c List.mem_cons_self]
  have hsplit : objText indent sep closing (texts (m :: ms)) ++ tail =
      '{' :: (indent ++ ((',' :: sep).intercalate ((texts (m :: ms)).map memberText) ++ (closing ++ '}' :: tail))) := by
    simp [objText]
  have hkey : (⟨[], .objOpen⟩ : Reader F).step fl '"' = .ok ⟨[], .keyText [] [] .plain⟩ := rfl
  have hread := run_members hsep hc rest ms hms hkey
  have htail' : (⟨[], .done (.obj (members (m :: ms)))⟩ : Reader F).run fl tail = .ok ⟨[], .done (.obj (members (m :: ms)))⟩ := by
    have h : (⟨[], .done (.obj (members (m :: ms)))⟩ : Reader F).run fl (tail ++ []) = _ :=
      run_spaces (fun _ => rfl) htail []
    rwa [List.append_nil] at h
  rw [loads, hsplit, run_step_ok hopen, run_spaces (fun _ => rfl) hindent, hend, hread, ← hend, List.nil_append,
    run_spaces (fun _ => rfl) hclosing, run_step_ok hclose, htail']
  rfl

/-! ### Characters that are written -/

/-- A character of printable ASCII. -/
def isPrintable (c : Char) : Prop := 32 ≤ c.toNat ∧ c.toNat ≤ 126

instance (c : Char) : Decidable (isPrintable c) := inferInstanceAs (Decidable (_ ∧ _))

theorem isPrintable_hex4 (n : ℕ) : ∀ c ∈ hex4 n, isPrintable c := by
  have hdigit : ∀ d, d < 16 → isPrintable (Nat.digitChar d) := by decide
  have hmod : ∀ k, isPrintable (Nat.digitChar (k % 16)) := fun k => hdigit _ (Nat.mod_lt k (by omega))
  intro c hc
  simp only [hex4, List.mem_cons, List.not_mem_nil, or_false] at hc
  rcases hc with rfl | rfl | rfl | rfl <;> exact hmod _

theorem isPrintable_unicodeEscape (n : ℕ) : ∀ c ∈ unicodeEscape n, isPrintable c := by
  intro c hc
  rcases List.mem_cons.mp hc with rfl | hc
  · decide
  · rcases List.mem_cons.mp hc with rfl | hc
    · decide
    · exact isPrintable_hex4 n c hc

theorem isPrintable_quotedChar (d : Char) : ∀ c ∈ quotedChar d, isPrintable c := by
  unfold quotedChar
  split
  · decide
  · decide
  · decide
  · decide
  · decide
  · split
    · decide
    · split
      · decide
      · split
        · rename_i hprint
          intro c hc
          rw [List.mem_singleton.mp hc]
          exact hprint
        · split
          · exact isPrintable_unicodeEscape _
          · intro c hc
            exact (List.mem_append.mp hc).elim (isPrintable_unicodeEscape _ c) (isPrintable_unicodeEscape _ c)

theorem isPrintable_quoted (s : Str) : ∀ c ∈ quoted s, isPrintable c := by
  have hquote : isPrintable '"' := by decide
  intro c hc
  simp only [quoted, List.cons_append, List.mem_cons, List.mem_append, List.not_mem_nil, or_false] at hc
  rcases hc with rfl | hc | rfl
  · exact hquote
  · obtain ⟨d, _, hd⟩ := List.mem_flatMap.mp hc
    exact isPrintable_quotedChar d c hd
  · exact hquote

theorem isPrintable_of_isDigit {c : Char} (hc : c.isDigit) : isPrintable c := by
  have hrange : 48 ≤ c.toNat ∧ c.toNat ≤ 57 := by simpa [Char.isDigit, UInt32.le_iff_toNat_le] using hc
  exact ⟨by omega, by omega⟩

theorem isPrintable_textOf (n : ℤ) : ∀ c ∈ textOf n, isPrintable c := by
  have hdigits : ∀ c ∈ Nat.toDigits 10 n.natAbs, isPrintable c := fun c hc =>
    isPrintable_of_isDigit (isDigit_toDigits _ c hc)
  unfold textOf
  split
  · intro c hc
    rcases List.mem_cons.mp hc with rfl | hc
    · decide
    · exact hdigits c hc
  · exact hdigits

theorem isPrintable_of_isNumChar {c : Char} (hc : isNumChar c) : isPrintable c := by
  simp only [isNumChar, decide_eq_true_eq] at hc
  rcases hc with hc | rfl | rfl | rfl | rfl | rfl
  · exact isPrintable_of_isDigit hc
  all_goals decide

theorem isNumChar_of_numRun : ∀ {s : Str} {phase phase' : NumPhase}, numRun phase s = some phase' →
    ∀ c ∈ s, isNumChar c
  | [], _, _, _, _, hc => absurd hc List.not_mem_nil
  | d :: s, phase, phase', h, c, hc => by
    have hbind : (numStep phase d).bind (fun q => numRun q s) = some phase' := h
    obtain ⟨q, hq, hs⟩ := Option.bind_eq_some_iff.mp hbind
    rcases List.mem_cons.mp hc with rfl | hc
    · exact isNumChar_of_numStep hq
    · exact isNumChar_of_numRun hs c hc

theorem isPrintable_of_numPhase {t : Str} {phase : NumPhase} (h : numPhase t = some phase) :
    ∀ c ∈ t, isPrintable c := by
  match t with
  | [] => exact fun c hc => absurd hc List.not_mem_nil
  | d :: s =>
    obtain ⟨q, hq, hs⟩ := Option.bind_eq_some_iff.mp (show (numStart d).bind _ = _ from h)
    intro c hc
    rcases List.mem_cons.mp hc with rfl | hc
    · unfold numStart at hq
      split at hq
      · rename_i hm
        rw [hm]
        decide
      · split at hq
        · rename_i hz
          rw [hz]
          decide
        · split at hq
          · rename_i hd
            exact isPrintable_of_isDigit (by simp_all [isNonZeroDigit])
          · cases hq
    · exact isPrintable_of_isNumChar (isNumChar_of_numRun hs c hc)

theorem isPrintable_of_isFloatText {t : Str} (ht : isFloatText t) : ∀ c ∈ t, isPrintable c := by
  have hphase : numPhase t = some .frac ∨ numPhase t = some .expDigits := by simpa [isFloatText] using ht
  rcases hphase with h | h <;> exact isPrintable_of_numPhase h

theorem forall_intercalate {P : Char → Prop} {sep : Str} (hsep : ∀ c ∈ sep, P c) : ∀ {ts : List Str},
    (∀ t ∈ ts, ∀ c ∈ t, P c) → ∀ c ∈ sep.intercalate ts, P c
  | [], _, _, hc => absurd hc List.not_mem_nil
  | [t], h, c, hc => h t List.mem_cons_self c (by rwa [List.intercalate_singleton] at hc)
  | t :: t' :: ts, h, c, hc => by
    rw [List.intercalate_cons_cons, List.mem_append, List.mem_append] at hc
    rcases hc with (hc | hc) | hc
    · exact h t List.mem_cons_self c hc
    · exact hsep c hc
    · exact forall_intercalate hsep (fun t'' ht'' => h t'' (List.mem_cons_of_mem t ht'')) c hc

/-- An object is on one line if its values are. -/
theorem isPrintable_objText {ms : List (Str × Str)} (h : ∀ m ∈ ms, ∀ c ∈ m.2, isPrintable c) :
    ∀ c ∈ objText [] [' '] [] ms, isPrintable c := by
  have hmember : ∀ m ∈ ms, ∀ c ∈ memberText m, isPrintable c := by
    intro m hm c hc
    simp only [memberText, List.mem_append] at hc
    rcases hc with (hc | hc) | hc
    · exact isPrintable_quoted m.1 c hc
    · revert c
      decide
    · exact h m hm c hc
  have hcomma : ∀ c ∈ [',', ' '], isPrintable c := by decide
  intro c hc
  simp only [objText, List.mem_cons, List.mem_append, List.not_mem_nil, or_false] at hc
  rcases hc with (rfl | hc) | rfl
  · decide
  · refine forall_intercalate hcomma (fun t ht => ?_) c hc
    obtain ⟨m, hm, rfl⟩ := List.mem_map.mp ht
    exact hmember m hm
  · decide

theorem isLineBreak_of_isPrintable {c : Char} (hc : isPrintable c) : isLineBreak c = false := by
  have hrange : 32 ≤ c.toNat ∧ c.toNat ≤ 126 := hc
  have hn : c ≠ '\n' := fun h => by
    rw [h] at hrange
    exact absurd hrange (by decide)
  have hr : c ≠ '\r' := fun h => by
    rw [h] at hrange
    exact absurd hrange (by decide)
  simp only [isLineBreak, hn, hr, false_or, decide_eq_false_iff_not]
  omega

/-! ### Space -/

theorem plainStep_more {c : Char} (hc : c ≠ '"') (buf : Str) :
    plainStep buf c = .error .decode ∨ ∃ b p, plainStep buf c = .ok (.more b p) := by
  unfold plainStep
  rw [if_neg hc]
  split
  · exact .inr ⟨_, _, rfl⟩
  · split
    · exact .inl rfl
    · exact .inr ⟨_, _, rfl⟩

theorem escStep_more (buf : Str) (c : Char) :
    escStep buf c = .error .decode ∨ ∃ b p, escStep buf c = .ok (.more b p) := by
  unfold escStep
  split
  · exact .inr ⟨_, _, rfl⟩
  · split
    · exact .inr ⟨_, _, rfl⟩
    · exact .inl rfl

theorem unicodeEnd_more (buf : Str) (n : ℕ) : ∃ b p, unicodeEnd buf n = .more b p := by
  unfold unicodeEnd
  split <;> exact ⟨_, _, rfl⟩

theorem pairEnd_more (buf : Str) (hi n : ℕ) : ∃ b p, pairEnd buf hi n = .more b p := by
  unfold pairEnd
  split
  · exact ⟨_, _, rfl⟩
  · exact unicodeEnd_more _ n

/-- Only a quote closes a string. -/
theorem textStep_more {c : Char} (hc : c ≠ '"') (buf : Str) (phase : TextPhase) :
    textStep buf phase c = .error .decode ∨ ∃ b p, textStep buf phase c = .ok (.more b p) := by
  unfold textStep
  cases phase with
  | plain => exact plainStep_more hc buf
  | esc => exact escStep_more buf c
  | hex acc missing =>
    cases hexValue c with
    | none => exact .inl rfl
    | some d =>
      by_cases hm : missing ≤ 1
      · obtain ⟨b, p, h⟩ := unicodeEnd_more buf (acc * 16 + d)
        exact .inr ⟨b, p, by simp only [if_pos hm, h]⟩
      · exact .inr ⟨buf, .hex (acc * 16 + d) (missing - 1), by simp only [if_neg hm]⟩
  | high hi =>
    by_cases hb : c = '\\'
    · exact .inr ⟨_, _, if_pos hb⟩
    · simp only [if_neg hb]
      exact plainStep_more hc _
  | highEsc hi =>
    by_cases hu : c = 'u'
    · exact .inr ⟨_, _, if_pos hu⟩
    · simp only [if_neg hu]
      exact escStep_more _ c
  | highHex hi acc missing =>
    cases hexValue c with
    | none => exact .inl rfl
    | some d =>
      by_cases hm : missing ≤ 1
      · obtain ⟨b, p, h⟩ := pairEnd_more buf hi (acc * 16 + d)
        exact .inr ⟨b, p, by simp only [if_pos hm, h]⟩
      · exact .inr ⟨buf, .highHex hi (acc * 16 + d) (missing - 1), by simp only [if_neg hm]⟩

/-- Space before the end leaves the value as it is. -/
theorem step_space {c : Char} (hc : isJsonSpace c) (r : Reader F) :
    (r.step fl c).bind (Reader.finish fl) = r.finish fl := by
  have hcases : c = ' ' ∨ c = '\t' ∨ c = '\n' ∨ c = '\r' := by simpa [isJsonSpace] using hc
  have hne : ∀ d, isJsonSpace d = false → c ≠ d := fun d hd hcd => by
    rw [hcd, hd] at hc
    cases hc
  have hbetween : ∀ r' : Reader F, between r' c = .ok r' := fun r' => if_pos hc
  obtain ⟨stack, mode⟩ := r
  cases mode with
  | word w seen =>
    have hw : w.text[seen]? ≠ some c := by
      intro h
      have hmem := List.mem_of_getElem? h
      rcases hcases with rfl | rfl | rfl | rfl <;> cases w <;> revert hmem <;> decide
    simp only [Reader.step, if_neg hw, Reader.finish]
    rfl
  | num text phase =>
    have hnum : numStep phase c = none := numStep_of_endsNumber (by simp [endsNumber, hc]) phase
    have hno : ¬ (phase = .minus ∧ c = 'I') := fun h => hne 'I' (by decide) h.2
    simp only [Reader.step, if_neg hno, hnum, Reader.finish, hbetween]
    cases numEnd fl text phase with
    | error e => rfl
    | ok v =>
      match stack with
      | [] | .item _ :: _ | .member _ _ :: _ => rfl
  | text buf phase =>
    show ((textStep buf phase c).map _).bind _ = _
    rcases textStep_more (hne '"' (by decide)) buf phase with h | ⟨b, p, h⟩ <;> rw [h] <;> rfl
  | keyText ps buf phase =>
    show ((textStep buf phase c).map _).bind _ = _
    rcases textStep_more (hne '"' (by decide)) buf phase with h | ⟨b, p, h⟩ <;> rw [h] <;> rfl
  | _ =>
    show (between _ c).bind _ = _
    rw [hbetween]
    rfl

/-- **Space at the end of a text does not matter.** -/
theorem loads_append_space (s : Str) {c : Char} (hc : isJsonSpace c) : loads fl (s ++ [c]) = loads fl s := by
  unfold loads
  rw [run_snoc]
  cases (⟨[], .value⟩ : Reader F).run fl s with
  | error e => rfl
  | ok r => exact step_space hc r

/-- Space that is none to JSON. -/
def isOtherSpace (c : Char) : Bool := Re.isSpace c ∧ isJsonSpace c = false

theorem isOtherSpace_of_isLineBreak {c : Char} (hc : isLineBreak c) (hn : c ≠ '\n') (hr : c ≠ '\r') :
    isOtherSpace c := by
  have hrange : (11 ≤ c.toNat ∧ c.toNat ≤ 12) ∨ (28 ≤ c.toNat ∧ c.toNat ≤ 30) ∨ c.toNat = 0x85 ∨
      c.toNat = 0x2028 ∨ c.toNat = 0x2029 := by simpa [isLineBreak, hn, hr] using hc
  have hspace : c ≠ ' ' := fun h => by
    rw [h] at hrange
    exact absurd hrange (by decide)
  have htab : c ≠ '\t' := fun h => by
    rw [h] at hrange
    exact absurd hrange (by decide)
  have hjson : isJsonSpace c = false := by simp [isJsonSpace, hspace, htab, hn, hr]
  have hs : Re.isSpace c := by
    simp only [Re.isSpace, isAsciiSpace, isWideSpace, hspace, false_or, Bool.decide_or, Bool.or_eq_true,
      decide_eq_true_eq, List.mem_cons, List.not_mem_nil, or_false]
    omega
  simp [isOtherSpace, hs, hjson]

theorem isOtherSpace_ne {c d : Char} (hc : isOtherSpace c) (hd : isOtherSpace d = false) : c ≠ d := by
  intro h
  rw [h, hd] at hc
  cases hc

theorem isDigit_of_otherSpace {c : Char} (hc : isOtherSpace c) : c.isDigit = false := by
  by_contra h
  have hdigit : 48 ≤ c.toNat ∧ c.toNat ≤ 57 := by
    simpa [Char.isDigit, UInt32.le_iff_toNat_le] using h
  have hspace : Re.isSpace c ∧ isJsonSpace c = false := by simpa [isOtherSpace] using hc
  have hblank : c ≠ ' ' := fun h => by
    rw [h] at hspace
    exact absurd hspace.2 (by decide)
  have hs := hspace.1
  simp only [Re.isSpace, isAsciiSpace, isWideSpace, hblank, false_or, Bool.decide_or, Bool.or_eq_true,
    decide_eq_true_eq, List.mem_cons, List.not_mem_nil, or_false] at hs
  omega

theorem startValue_otherSpace {c : Char} (hc : isOtherSpace c) (stack : List (Ctx F)) :
    startValue stack c = .error .decode := by
  have hne : ∀ d, isOtherSpace d = false → ¬ c = d := fun d hd => isOtherSpace_ne hc hd
  have hdigit : isNonZeroDigit c = false := by simp [isNonZeroDigit, isDigit_of_otherSpace hc]
  simp only [startValue, hne '"' (by decide), hne '{' (by decide), hne '[' (by decide), hne 'n' (by decide),
    hne 't' (by decide), hne 'f' (by decide), hne 'N' (by decide), hne 'I' (by decide), hne '-' (by decide),
    hne '0' (by decide), hdigit, if_false, Bool.false_eq_true]

/-- Between the tokens it is an error. -/
theorem between_otherSpace {c : Char} (hc : isOtherSpace c) (r : Reader F) : between r c = .error .decode := by
  have hspace : ¬ isJsonSpace c := by
    have h : Re.isSpace c ∧ isJsonSpace c = false := by simpa [isOtherSpace] using hc
    simp [h.2]
  have hne : ∀ d, isOtherSpace d = false → ¬ c = d := fun d hd => isOtherSpace_ne hc hd
  rw [between, if_neg hspace]
  obtain ⟨stack, mode⟩ := r
  cases mode <;> simp only [startValue_otherSpace hc, hne ']' (by decide), hne '}' (by decide), hne ',' (by decide),
    hne ':' (by decide), hne '"' (by decide), if_false]

theorem isNumChar_of_otherSpace {c : Char} (hc : isOtherSpace c) : isNumChar c = false := by
  have hne : ∀ d, isOtherSpace d = false → ¬ c = d := fun d hd => isOtherSpace_ne hc hd
  simp [isNumChar, isDigit_of_otherSpace hc, hne '.' (by decide), hne 'e' (by decide), hne 'E' (by decide),
    hne '+' (by decide), hne '-' (by decide)]

/-- A blank text has no value yet. -/
theorem run_blank : ∀ {a : Str}, (∀ d ∈ a, Re.isSpace d) →
    (⟨[], .value⟩ : Reader F).run fl a = .ok ⟨[], .value⟩ ∨ ∃ e, (⟨[], .value⟩ : Reader F).run fl a = .error e
  | [], _ => .inl rfl
  | d :: a, h => by
    have hrest := run_blank fun e he => h e (List.mem_cons_of_mem d he)
    by_cases hd : isJsonSpace d
    · have hstep : (⟨[], .value⟩ : Reader F).step fl d = .ok ⟨[], .value⟩ := if_pos hd
      rw [run_step_ok hstep]
      exact hrest
    · have hother : isOtherSpace d := by simp [isOtherSpace, h d List.mem_cons_self, hd]
      have hstep : (⟨[], .value⟩ : Reader F).step fl d = .error .decode := between_otherSpace hother _
      refine .inr ⟨.decode, ?_⟩
      rw [Reader.run_cons, hstep]
      rfl

theorem loads_blank {a : Str} (ha : ∀ d ∈ a, Re.isSpace d) (v : Json F) : loads fl a ≠ .ok v := by
  intro h
  unfold loads at h
  rcases run_blank ha with hr | ⟨e, hr⟩ <;> rw [hr] at h <;> cases h

/-- After a value comes no such space. -/
theorem step_otherSpace {c : Char} (hc : isOtherSpace c) {r : Reader F} {v : Json F} (hr : r.finish fl = .ok v) :
    r.step fl c = .error .decode := by
  obtain ⟨stack, mode⟩ := r
  cases mode with
  | done v' => exact between_otherSpace hc _
  | num text phase =>
    have hnum : numStep phase c = none := by
      by_contra h
      obtain ⟨q, hq⟩ := Option.ne_none_iff_exists'.mp h
      have := isNumChar_of_numStep hq
      rw [isNumChar_of_otherSpace hc] at this
      cases this
    have hno : ¬ (phase = .minus ∧ c = 'I') := fun h => isOtherSpace_ne hc (d := 'I') (by decide) h.2
    have hend : ∃ v', numEnd fl text phase = .ok v' := by
      simp only [Reader.finish] at hr
      cases h : numEnd fl text phase with
      | ok v' => exact ⟨v', rfl⟩
      | error e =>
        rw [h] at hr
        cases hr
    obtain ⟨v', hv'⟩ := hend
    simp only [Reader.step, if_neg hno, hnum, hv']
    exact between_otherSpace hc _
  | _ => cases hr

/-- **A text that is blank or has a value does not go on with such a space.** -/
theorem loads_otherSpace {a b : Str} {c : Char} (hc : isOtherSpace c)
    (ha : (∀ d ∈ a, Re.isSpace d) ∨ ∃ v, loads fl a = .ok v) (v : Json F) : loads fl (a ++ c :: b) ≠ .ok v := by
  intro h
  have hstop : ∀ r : Reader F, (⟨[], .value⟩ : Reader F).run fl a = .ok r → r.step fl c = .error .decode → False := by
    intro r hr hstep
    rw [loads, Reader.run_append_ok hr, Reader.run_cons, hstep] at h
    cases h
  have hfail : ∀ e, (⟨[], .value⟩ : Reader F).run fl a = .error e → False := by
    intro e he
    rw [loads, Reader.run_append, he] at h
    cases h
  rcases ha with ha | ⟨v', ha⟩
  · rcases run_blank ha with hr | ⟨e, hr⟩
    · exact hstop _ hr (between_otherSpace hc _)
    · exact hfail e hr
  · unfold loads at ha
    cases hr : (⟨[], .value⟩ : Reader F).run fl a with
    | error e => exact hfail e hr
    | ok r =>
      rw [hr] at ha
      exact hstop r hr (step_otherSpace hc ha)

end Py
end MqResiliency
