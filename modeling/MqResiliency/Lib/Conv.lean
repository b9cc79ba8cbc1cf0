/-
# Conversions of integers

Python refuses to turn an integer of more than 4300 digits into text, or to
read one from text, with a `ValueError` that no caller here expects. A
computation with such conversions on its way (`Conv`) runs under this limit
(`exec`); without it, it comes to a `result` and has converted the integers of
`sizes`. The two agree as long as all sizes are in the limit (`exec_of_short`),
and only then (`exec_eq_valueError`).

`wp` is the weakest precondition of a run under the limit.
-/
import Mathlib.Algebra.Group.Nat.Defs
import MqResiliency.Lib.Text

namespace MqResiliency
namespace Py

/-- A computation that raises `ε` or returns `α`, and converts integers of so
many digits on its way. -/
inductive Conv (ε α : Type) : Type where
  | ret (a : α)
  | raise (e : ε)
  | convert (digits : ℕ) (next : Conv ε α)

/-- What a run raises: an exception of its own, or the `ValueError` of a conversion. -/
inductive Exn (ε : Type) : Type where
  | own (e : ε)
  | valueError
deriving DecidableEq

namespace Conv

variable {ε α β : Type}

def bind : Conv ε α → (α → Conv ε β) → Conv ε β
  | ret a, f => f a
  | raise e, _ => raise e
  | convert d c, f => convert d (c.bind f)

/-- `try c except e: h e`, of its own exceptions. -/
def handle : Conv ε α → (ε → Conv ε α) → Conv ε α
  | ret a, _ => ret a
  | raise e, h => h e
  | convert d c, h => convert d (c.handle h)

instance : Monad (Conv ε) where
  pure := ret
  bind := bind

instance : MonadExcept ε (Conv ε) where
  throw := raise
  tryCatch := handle

/-- The run under the limit. -/
def exec : Conv ε α → Except (Exn ε) α
  | ret a => .ok a
  | raise e => .error (.own e)
  | convert d c => if d ≤ maxStrDigits then c.exec else .error .valueError

/-- What the computation comes to without the limit. -/
def result : Conv ε α → Except ε α
  | ret a => .ok a
  | raise e => .error e
  | convert _ c => c.result

/-- The digits of the integers that it converts without the limit. -/
def sizes : Conv ε α → List ℕ
  | ret _ => []
  | raise _ => []
  | convert d c => d :: c.sizes

/-- No conversion is beyond the limit. -/
def Short (c : Conv ε α) : Prop := ∀ d ∈ c.sizes, d ≤ maxStrDigits

/-! ### Conversions -/

/-- The text of an integer. -/
def textOf (n : ℤ) : Str := if n < 0 then '-' :: Nat.toDigits 10 n.natAbs else Nat.toDigits 10 n.natAbs

/-- How many digits an integer has. -/
def digitsOf (n : ℤ) : ℕ := (Nat.toDigits 10 n.natAbs).length

/-- `str(n)`. -/
def ofInt (n : ℤ) : Conv ε Str := convert (digitsOf n) (ret (textOf n))

/-- `int(s)` of a text of ASCII digits. -/
def ofDigits (s : Str) : Conv ε ℤ := convert s.length (ret (Nat.ofDigitChars 10 s 0))

theorem ofDigitChars_lt : ∀ {s : Str} (init : ℕ), (∀ c ∈ s, c.isDigit) →
    Nat.ofDigitChars 10 s init < (init + 1) * 10 ^ s.length
  | [], init, _ => by simp
  | c :: s, init, h => by
    rw [Nat.ofDigitChars_cons]
    have hc : c.toNat - '0'.toNat < 10 := by
      have hdigit := h c List.mem_cons_self
      simp only [Char.isDigit, Bool.and_eq_true, decide_eq_true_eq] at hdigit
      have h9 : c.toNat ≤ 57 := hdigit.2
      have h0 : '0'.toNat = 48 := rfl
      omega
    have hrest := ofDigitChars_lt (10 * init + (c.toNat - '0'.toNat)) fun d hd => h d (List.mem_cons_of_mem c hd)
    calc _ < (10 * init + (c.toNat - '0'.toNat) + 1) * 10 ^ s.length := hrest
      _ ≤ (10 * (init + 1)) * 10 ^ s.length := Nat.mul_le_mul_right _ (by omega)
      _ = (init + 1) * 10 ^ (c :: s).length := by
        rw [List.length_cons, Nat.pow_succ, Nat.mul_comm 10, Nat.mul_assoc, Nat.mul_comm 10]

/-- An integer has no more digits than a text that it is read from. -/
theorem digitsOf_ofDigitChars {s : Str} (hne : s ≠ []) (h : ∀ c ∈ s, c.isDigit) :
    digitsOf (Nat.ofDigitChars 10 s 0 : ℕ) ≤ s.length := by
  have hpos : 0 < s.length := List.length_pos_of_ne_nil hne
  refine (Nat.length_toDigits_le_iff (by omega) hpos).mpr ?_
  simpa using ofDigitChars_lt 0 h

/-! ### The limit -/

theorem exec_eq_valueError {c : Conv ε α} : c.exec = .error .valueError ↔ ¬ c.Short := by
  induction c with
  | ret a => simp [exec, Short, sizes]
  | raise e => simp [exec, Short, sizes]
  | convert d c ih =>
    have hshort : (convert d c).Short ↔ d ≤ maxStrDigits ∧ c.Short := by simp [Short, sizes]
    rw [hshort, exec]
    split
    · rename_i hd
      rw [ih]
      tauto
    · rename_i hd
      simp [hd]

theorem exec_of_short {c : Conv ε α} (h : c.Short) : c.exec = c.result.mapError .own := by
  induction c with
  | ret a => rfl
  | raise e => rfl
  | convert d c ih =>
    have hd : d ≤ maxStrDigits := h d List.mem_cons_self
    rw [exec, if_pos hd, result]
    exact ih fun d' hd' => h d' (List.mem_cons_of_mem d hd')

/-! ### The weakest precondition -/

/-- The run ends in `Q`, raises in `E`, or ends at a conversion, if `L`. -/
def wp (L : Prop) : Conv ε α → (α → Prop) → (ε → Prop) → Prop
  | ret a, Q, _ => Q a
  | raise e, _, E => E e
  | convert d c, Q, E => (d ≤ maxStrDigits → c.wp L Q E) ∧ (maxStrDigits < d → L)

variable {L : Prop}

@[simp] theorem wp_pure (a : α) (Q : α → Prop) (E : ε → Prop) :
    (pure a : Conv ε α).wp L Q E ↔ Q a := Iff.rfl

@[simp] theorem wp_throw (e : ε) (Q : α → Prop) (E : ε → Prop) :
    (throw e : Conv ε α).wp L Q E ↔ E e := Iff.rfl

theorem wp_bind (c : Conv ε α) (f : α → Conv ε β) (Q : β → Prop) (E : ε → Prop) :
    (c >>= f).wp L Q E ↔ c.wp L (fun a => (f a).wp L Q E) E := by
  induction c with
  | ret a => exact Iff.rfl
  | raise e => exact Iff.rfl
  | convert d c ih => exact and_congr_left fun _ => forall_congr' fun _ => ih

/-- The rule of sequences. -/
theorem wp_seq {c : Conv ε α} {f : α → Conv ε β} {P : α → Prop} {Q : β → Prop} {E : ε → Prop}
    (hc : c.wp L P E) (hf : ∀ a, P a → (f a).wp L Q E) : (c >>= f).wp L Q E := by
  rw [wp_bind]
  induction c with
  | ret a => exact hf a hc
  | raise e => exact hc
  | convert d c ih => exact ⟨fun hd => ih (hc.1 hd), hc.2⟩

theorem wp_tryCatch (c : Conv ε α) (h : ε → Conv ε α) (Q : α → Prop) (E : ε → Prop) :
    (tryCatch c h).wp L Q E ↔ c.wp L Q (fun e => (h e).wp L Q E) := by
  induction c with
  | ret a => exact Iff.rfl
  | raise e => exact Iff.rfl
  | convert d c ih => exact and_congr_left fun _ => forall_congr' fun _ => ih

theorem wp_mono {L' : Prop} {Q Q' : α → Prop} {E E' : ε → Prop} (hL : L → L') (hQ : ∀ a, Q a → Q' a)
    (hE : ∀ e, E e → E' e) {c : Conv ε α} (h : c.wp L Q E) : c.wp L' Q' E' := by
  induction c with
  | ret a => exact hQ a h
  | raise e => exact hE e h
  | convert d c ih => exact ⟨fun hd => ih (h.1 hd), fun hd => hL (h.2 hd)⟩

/-- What the run under the limit comes to. -/
theorem wp_exec {Q : α → Prop} {E : ε → Prop} {c : Conv ε α} (h : c.wp L Q E) :
    (∀ a, c.exec = .ok a → Q a) ∧ (∀ e, c.exec = .error (.own e) → E e) ∧
      (c.exec = .error .valueError → L) := by
  induction c with
  | ret a =>
    refine ⟨fun b hb => ?_, fun e he => absurd he (by simp [exec]), fun he => absurd he (by simp [exec])⟩
    obtain rfl : a = b := by simpa [exec] using hb
    exact h
  | raise e =>
    refine ⟨fun b hb => absurd hb (by simp [exec]), fun e' he => ?_, fun he => absurd he (by simp [exec])⟩
    obtain rfl : e = e' := by simpa [exec] using he
    exact h
  | convert d c ih =>
    rw [exec]
    split
    · rename_i hd
      exact ih (h.1 hd)
    · rename_i hd
      exact ⟨fun a ha => absurd ha (by simp), fun e he => absurd he (by simp), fun _ => h.2 (by omega)⟩

theorem post_of_exec {Q : α → Prop} {E : ε → Prop} {c : Conv ε α} (h : c.wp True Q E) {a : α}
    (ha : c.exec = .ok a) : Q a := (wp_exec h).1 a ha

/-- A run that cannot fail ends. -/
theorem exec_ok_of_wp {Q : α → Prop} {c : Conv ε α} (h : c.wp False Q fun _ => False) :
    ∃ a, c.exec = .ok a ∧ Q a := by
  obtain ⟨hok, herr, hval⟩ := wp_exec h
  match hc : c.exec with
  | .ok a => exact ⟨a, rfl, hok a hc⟩
  | .error (.own e) => exact (herr e hc).elim
  | .error .valueError => exact (hval hc).elim

theorem wp_of_exec {Q : α → Prop} {E : ε → Prop} {c : Conv ε α} (hQ : ∀ a, c.exec = .ok a → Q a)
    (hE : ∀ e, c.exec = .error (.own e) → E e) (hL : c.exec = .error .valueError → L) : c.wp L Q E := by
  induction c with
  | ret a => exact hQ a rfl
  | raise e => exact hE e rfl
  | convert d c ih =>
    refine ⟨fun hd => ?_, fun hd => hL (if_neg (by omega))⟩
    have hexec : (convert d c).exec = c.exec := if_pos hd
    exact ih (fun a ha => hQ a (hexec.trans ha)) (fun e he => hE e (hexec.trans he))
      fun hl => hL (hexec.trans hl)

theorem wp_ofInt {n : ℤ} {Q : Str → Prop} {E : ε → Prop} :
    (ofInt n : Conv ε Str).wp L Q E ↔
      (digitsOf n ≤ maxStrDigits → Q (textOf n)) ∧ (maxStrDigits < digitsOf n → L) := Iff.rfl

theorem wp_ofDigits {s : Str} {Q : ℤ → Prop} {E : ε → Prop} :
    (ofDigits s : Conv ε ℤ).wp L Q E ↔
      (s.length ≤ maxStrDigits → Q (Nat.ofDigitChars 10 s 0)) ∧ (maxStrDigits < s.length → L) := Iff.rfl

/-! ### Runs -/

theorem exec_bind (c : Conv ε α) (f : α → Conv ε β) :
    (c >>= f).exec = c.exec >>= fun a => (f a).exec := by
  induction c with
  | ret a => rfl
  | raise e => rfl
  | convert d c ih =>
    show (if d ≤ maxStrDigits then (c.bind f).exec else .error .valueError) = _
    rw [exec]
    split
    · exact ih
    · rfl

theorem exec_bind_ok {c : Conv ε α} {f : α → Conv ε β} {b : β} (h : (c >>= f).exec = .ok b) :
    ∃ a, c.exec = .ok a ∧ (f a).exec = .ok b := by
  rw [exec_bind] at h
  cases hc : c.exec with
  | ok a => exact ⟨a, rfl, by rwa [hc] at h⟩
  | error e => rw [hc] at h; exact absurd h (by simp [Bind.bind, Except.bind])

theorem exec_tryCatch_ok {c : Conv ε α} {h : ε → Conv ε α} {a : α} (hc : c.exec = .ok a) :
    (tryCatch c h).exec = .ok a := by
  induction c with
  | ret b => exact hc
  | raise e => exact absurd hc (by simp [exec])
  | convert d c ih =>
    show (if d ≤ maxStrDigits then (c.handle h).exec else .error .valueError) = _
    rw [exec] at hc
    split
    · rename_i hd
      rw [if_pos hd] at hc
      exact ih hc
    · rename_i hd
      rw [if_neg hd] at hc
      exact absurd hc (by simp)

/-- Every run ends in something. -/
theorem wp_trivial (c : Conv ε α) : c.wp True (fun _ => True) (fun _ => True) := by
  induction c with
  | ret a => trivial
  | raise e => trivial
  | convert d c ih => exact ⟨fun _ => ih, fun _ => trivial⟩

theorem exec_of_isOk {c : Conv ε α} (h : c.exec.isOk = true) : ∃ a, c.exec = .ok a := by
  cases hc : c.exec with
  | ok a => exact ⟨a, rfl⟩
  | error e => rw [hc] at h; exact absurd h (by simp [Except.isOk, Except.toBool])

theorem exec_ofInt {n : ℤ} {t : Str} (h : (ofInt n : Conv ε Str).exec = .ok t) :
    t = textOf n ∧ digitsOf n ≤ maxStrDigits := by
  unfold ofInt exec at h
  split at h
  · rename_i hd
    exact ⟨by simpa [exec] using h.symm, hd⟩
  · exact absurd h (by simp)

theorem exec_ofInt_of_le {n : ℤ} (h : digitsOf n ≤ maxStrDigits) :
    (ofInt n : Conv ε Str).exec = .ok (textOf n) := by
  rw [ofInt, exec, if_pos h]
  rfl

end Conv

/-! ### Integers that print -/

theorem isSome_str {n : ℤ} (h : n.natAbs < 10 ^ maxStrDigits) : (str n).isSome := by
  have hlen : (Nat.toDigits 10 n.natAbs).length ≤ maxStrDigits :=
    (Nat.length_toDigits_le_iff (by omega) (by decide)).mpr h
  simp [str, hlen]

theorem isDigit_of_digitRun : ∀ {s ds : Str} {prev : Bool}, digitRun prev s = some ds → ∀ c ∈ ds, c.isDigit
  | [], ds, prev, h => by
    have hnil : ds = [] := by
      cases prev with
      | true => simpa [digitRun, eq_comm] using h
      | false => simp [digitRun] at h
    simp [hnil]
  | c :: s, ds, prev, h => by
    rw [digitRun] at h
    split at h
    · split at h
      · exact isDigit_of_digitRun h
      · cases h
    · split at h
      · rename_i hc
        obtain ⟨ds', hds, rfl⟩ := Option.map_eq_some_iff.mp h
        intro d hd
        rcases List.mem_cons.mp hd with rfl | hd
        · exact hc
        · exact isDigit_of_digitRun hds d hd
      · cases h

theorem natOf_lt {s : Str} {n : ℕ} (h : natOf s = some n) : n < 10 ^ maxStrDigits := by
  obtain ⟨ds, hds, h⟩ := Option.bind_eq_some_iff.mp h
  split at h
  · rename_i hlen
    obtain rfl := Option.some.inj h
    have hlt := Conv.ofDigitChars_lt 0 (isDigit_of_digitRun hds)
    rw [Nat.zero_add, Nat.one_mul] at hlt
    exact hlt.trans_le (Nat.pow_le_pow_right (by omega) hlen)
  · cases h

/-- An integer that is read from a text prints. -/
theorem isSome_str_of_int {s : Str} {n : ℤ} (h : Py.int s = some n) : (str n).isSome := by
  refine isSome_str ?_
  have hread : ∃ t m, natOf t = some m ∧ (n = -(m : ℤ) ∨ n = m) := by
    unfold Py.int at h
    split at h
    · rename_i t _
      cases hm : natOf t with
      | none => simp [hm] at h
      | some m => exact ⟨t, m, hm, .inl (by simpa [hm, eq_comm] using h)⟩
    · rename_i t _
      cases hm : natOf t with
      | none => simp [hm] at h
      | some m => exact ⟨t, m, hm, .inr (by simpa [hm, eq_comm] using h)⟩
    · cases hm : natOf (strip (toAscii s)) with
      | none => simp [hm] at h
      | some m => exact ⟨_, m, hm, .inr (by simpa [hm, eq_comm] using h)⟩
  obtain ⟨t, m, hm, hn⟩ := hread
  have := natOf_lt hm
  omega

end Py
end MqResiliency
