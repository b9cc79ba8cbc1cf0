/-
# Runs against an oracle

A program against an oracle, a function of what was asked and answered so far
(`Prog.run`), and the laws of its history: every command met a condition on
what came before it (`Obeys`), certain exchanges came in a certain order
(`InOrder`).

`run_obeys` reads a weakest precondition over `Hist`, the environment that
only remembers, as a fact about the runs against every oracle whose answers
meet a condition.
-/
import Mathlib.Data.List.Forall2
import MqResiliency.Lib.Prog

namespace MqResiliency
namespace Prog

variable {C : Type} {A : C → Type} {ε α : Type}

/-- A command and its answer. -/
abbrev Exchange (C : Type) (A : C → Type) : Type := (c : C) × A c

/-- What was asked and answered. -/
abbrev History (C : Type) (A : C → Type) : Type := List (Exchange C A)

/-- What answers a command after a history. -/
abbrev Oracle (C : Type) (A : C → Type) : Type := History C A → (c : C) → A c

/-- The run against `o`: all that was asked and answered, and how it ended
(`none`: at `stop`). -/
def run (o : Oracle C A) : Prog C A ε α → History C A → History C A × Option (Except ε α)
  | ret a, h => (h, some (.ok a))
  | raise e, h => (h, some (.error e))
  | stop, h => (h, none)
  | call c k, h => (k (o h c)).run o (h ++ [⟨c, o h c⟩])

theorem run_bind {β : Type} (o : Oracle C A) (p : Prog C A ε α) (f : α → Prog C A ε β) : ∀ h : History C A,
    (p >>= f).run o h =
      match p.run o h with
      | (h', some (.ok a)) => (f a).run o h'
      | (h', some (.error e)) => (h', some (.error e))
      | (h', none) => (h', none) := by
  induction p with
  | ret a => exact fun _ => rfl
  | raise e => exact fun _ => rfl
  | stop => exact fun _ => rfl
  | call c k ih => exact fun h => ih (o h c) _

@[simp] theorem run_pure (o : Oracle C A) (a : α) (h : History C A) :
    (pure a : Prog C A ε α).run o h = (h, some (.ok a)) := rfl

@[simp] theorem run_throw (o : Oracle C A) (e : ε) (h : History C A) :
    (throw e : Prog C A ε α).run o h = (h, some (.error e)) := rfl

theorem run_ask (o : Oracle C A) (c : C) (h : History C A) :
    (ask c : Prog C A ε (A c)).run o h = (h ++ [⟨c, o h c⟩], some (.ok (o h c))) := rfl

theorem run_map {β : Type} (o : Oracle C A) (f : α → β) (p : Prog C A ε α) (h : History C A) :
    (f <$> p).run o h =
      match p.run o h with
      | (h', some (.ok a)) => (h', some (.ok (f a)))
      | (h', some (.error e)) => (h', some (.error e))
      | (h', none) => (h', none) := run_bind o p (fun a => pure (f a)) h

theorem run_tryCatch (o : Oracle C A) (p : Prog C A ε α) (f : ε → Prog C A ε α) : ∀ h : History C A,
    (tryCatch p f).run o h =
      match p.run o h with
      | (h', some (.error e)) => (f e).run o h'
      | x => x := by
  induction p with
  | ret a => exact fun _ => rfl
  | raise e => exact fun _ => rfl
  | stop => exact fun _ => rfl
  | call c k ih => exact fun h => ih (o h c) _

/-- What a run adds to the history are commands that the program may issue. -/
theorem run_issues (o : Oracle C A) {K : C → Prop} {p : Prog C A ε α} : ∀ h : History C A, p.Issues K →
    ∃ es, (p.run o h).1 = h ++ es ∧ ∀ e ∈ es, K e.1 := by
  induction p with
  | ret a => exact fun h _ => ⟨[], by simp [run], fun e he => absurd he (by simp)⟩
  | raise e => exact fun h _ => ⟨[], by simp [run], fun e he => absurd he (by simp)⟩
  | stop => exact fun h _ => ⟨[], by simp [run], fun e he => absurd he (by simp)⟩
  | call c k ih =>
    intro h hp
    obtain ⟨es, hes, hK⟩ := ih (o h c) (h ++ [⟨c, o h c⟩]) (hp.2 (o h c))
    refine ⟨⟨c, o h c⟩ :: es, ?_, fun e he => ?_⟩
    · rw [run, hes, List.append_assoc]
      rfl
    · rcases List.mem_cons.mp he with rfl | he
      · exact hp.1
      · exact hK e he

/-- The environment that gives any answer that is `ok`, and remembers it. -/
def Hist (ok : (c : C) → A c → Prop) : Env (History C A) C A :=
  fun h c a h' => ok c a ∧ h' = h ++ [⟨c, a⟩]

/-- The program issues at most `n` commands. -/
def AtMost : ℕ → Prog C A ε α → Prop
  | _, ret _ => True
  | _, raise _ => True
  | _, stop => True
  | 0, call _ _ => False
  | n + 1, call _ k => ∀ a, AtMost n (k a)

@[simp] theorem atMost_pure (n : ℕ) (a : α) : (pure a : Prog C A ε α).AtMost n := by
  cases n <;> trivial

@[simp] theorem atMost_throw (n : ℕ) (e : ε) : (throw e : Prog C A ε α).AtMost n := by
  cases n <;> trivial

theorem AtMost.mono {p : Prog C A ε α} : ∀ {n m : ℕ}, n ≤ m → p.AtMost n → p.AtMost m := by
  induction p with
  | ret a => exact fun _ _ => by simp [AtMost]
  | raise e => exact fun _ _ => by simp [AtMost]
  | stop => exact fun _ _ => by simp [AtMost]
  | call c k ih =>
    intro n m hnm hp
    cases n with
    | zero => exact absurd hp (by simp [AtMost])
    | succ n =>
      obtain ⟨m, rfl⟩ : ∃ m', m = m' + 1 := ⟨m - 1, by omega⟩
      exact fun a => ih a (by omega) (hp a)

theorem AtMost.bind {β : Type} {p : Prog C A ε α} {f : α → Prog C A ε β} {m : ℕ}
    (hf : ∀ a, (f a).AtMost m) : ∀ {n : ℕ}, p.AtMost n → (p >>= f).AtMost (n + m) := by
  induction p with
  | ret a => exact fun {n} _ => (hf a).mono (Nat.le_add_left m n)
  | raise e => exact fun _ => by simp [Bind.bind, Prog.bind, AtMost]
  | stop => exact fun _ => by simp [Bind.bind, Prog.bind, AtMost]
  | call c k ih =>
    intro n hp
    cases n with
    | zero => exact absurd hp (by simp [AtMost])
    | succ n =>
      rw [Nat.succ_add]
      exact fun a => ih a (hp a)

/-- As many are asked in a run. -/
theorem AtMost.length_run (o : Oracle C A) {p : Prog C A ε α} :
    ∀ {n : ℕ} (h : History C A), p.AtMost n → (p.run o h).1.length ≤ h.length + n := by
  induction p with
  | ret a => exact fun h _ => by simp [run]
  | raise e => exact fun h _ => by simp [run]
  | stop => exact fun h _ => by simp [run]
  | call c k ih =>
    intro n h hp
    cases n with
    | zero => exact absurd hp (by simp [AtMost])
    | succ n =>
      have hk := ih (o h c) (h ++ [⟨c, o h c⟩]) (hp (o h c))
      simp only [List.length_append, List.length_singleton] at hk
      simp only [run]
      omega

/-- The program returns or raises; it has no `stop`. -/
def Ends : Prog C A ε α → Prop
  | ret _ => True
  | raise _ => True
  | stop => False
  | call _ k => ∀ a, (k a).Ends

@[simp] theorem ends_pure (a : α) : (pure a : Prog C A ε α).Ends := trivial

@[simp] theorem ends_throw (e : ε) : (throw e : Prog C A ε α).Ends := trivial

@[simp] theorem ends_ask (c : C) : (ask c : Prog C A ε (A c)).Ends := fun _ => trivial

theorem Ends.bind {β : Type} {p : Prog C A ε α} {f : α → Prog C A ε β} (hp : p.Ends)
    (hf : ∀ a, (f a).Ends) : (p >>= f).Ends := by
  induction p with
  | ret a => exact hf a
  | raise e => trivial
  | stop => exact absurd hp id
  | call c k ih => exact fun a => ih a (hp a)

/-- Its runs return or raise. -/
theorem Ends.run (o : Oracle C A) {p : Prog C A ε α} :
    ∀ h : History C A, p.Ends → ∃ r, (p.run o h).2 = some r := by
  induction p with
  | ret a => exact fun _ _ => ⟨_, rfl⟩
  | raise e => exact fun _ _ => ⟨_, rfl⟩
  | stop => exact fun _ hp => absurd hp id
  | call c k ih => exact fun h hp => ih (o h c) _ (hp (o h c))

/-- Where it raises nothing it returns. -/
theorem Ends.exec {σ : Type} {env : Env σ C A} {I : σ → Prop} {Q : α → σ → Prop} {f : (s : σ) → (c : C) → A c × σ}
    (hf : ∀ s c, env s c (f s c).1 (f s c).2) {p : Prog C A ε α} (hp : p.Ends) :
    ∀ s, p.wp env I Q (fun _ _ => False) s → ∃ a s', p.exec f s = (ret a, s') ∧ Q a s' := by
  induction p with
  | ret a => exact fun s hQ => ⟨a, s, rfl, hQ⟩
  | raise e => exact fun s hno => hno.elim
  | stop => exact absurd hp id
  | call c k ih => exact fun s hw => ih (f s c).1 (hp (f s c).1) (f s c).2 (hw _ _ (hf s c)).2

/-! ### Laws of a history -/

section
variable {E : Type}

/-- Every event met `pre` when it came. -/
def Obeys (pre : List E → E → Prop) (h : List E) : Prop := ∀ h₀ e h₁, h = h₀ ++ e :: h₁ → pre h₀ e

/-- Events of these kinds happened, one after the other. -/
def InOrder (kinds : List (E → Prop)) (h : List E) : Prop :=
  ∃ l : List E, l.Sublist h ∧ List.Forall₂ (fun kind e => kind e) kinds l

variable {pre : List E → E → Prop} {kinds : List (E → Prop)} {h : List E}

theorem obeys_nil : Obeys pre [] := fun h₀ e h₁ he => by simp at he

theorem obeys_concat (e : E) : Obeys pre (h ++ [e]) ↔ Obeys pre h ∧ pre h e := by
  constructor
  · refine fun hp => ⟨fun h₀ e' h₁ he => hp h₀ e' (h₁ ++ [e]) (by simp [he]), hp h e [] rfl⟩
  · rintro ⟨hp, he⟩ h₀ e' h₁ heq
    rcases List.eq_nil_or_concat h₁ with rfl | ⟨h₂, e₂, rfl⟩
    · obtain ⟨rfl, rfl⟩ : h = h₀ ∧ e = e' := by simpa using List.append_inj' heq rfl
      exact he
    · have heq' : h ++ [e] = (h₀ ++ e' :: h₂) ++ [e₂] := by simpa using heq
      exact hp h₀ e' h₂ (List.append_inj' heq' rfl).1

theorem Obeys.of_isPrefix (hp : Obeys pre h) {h' : List E} (hh : h' <+: h) : Obeys pre h' := by
  obtain ⟨t, rfl⟩ := hh
  exact fun h₀ e h₁ he => hp h₀ e (h₁ ++ t) (by simp [he])

theorem inOrder_nil : InOrder [] h := ⟨[], List.nil_sublist h, .nil⟩

/-- What happened stays so. -/
theorem InOrder.mono (hk : InOrder kinds h) {h' : List E} (hp : h <+: h') : InOrder kinds h' := by
  obtain ⟨l, hl, hf⟩ := hk
  exact ⟨l, hl.trans hp.sublist, hf⟩

/-- An exchange that was needed happened. -/
theorem InOrder.exists_mem (hk : InOrder kinds h) {kind : E → Prop} (hm : kind ∈ kinds) :
    ∃ e ∈ h, kind e := by
  obtain ⟨l, hl, hf⟩ := hk
  obtain ⟨i, hi, rfl⟩ := List.mem_iff_getElem.mp hm
  have hlen : i < l.length := hf.length_eq ▸ hi
  exact ⟨l[i], hl.subset (List.getElem_mem hlen), List.Forall₂.get hf hi hlen⟩

/-- What happens next comes last. -/
theorem InOrder.concat (hk : InOrder kinds h) {kind : E → Prop} {e : E}
    (he : kind e) : InOrder (kinds ++ [kind]) (h ++ [e]) := by
  obtain ⟨l, hl, hf⟩ := hk
  exact ⟨l ++ [e], hl.append (List.Sublist.refl _), List.rel_append hf (.cons he .nil)⟩

end

/-! ### The laws of every run -/

/-- Every command met `pre` when it was issued. -/
abbrev ObeysAsk (pre : History C A → C → Prop) : History C A → Prop := Obeys fun h e => pre h e.1

variable {pre : History C A → C → Prop} {h : History C A} {ok : (c : C) → A c → Prop}

theorem wp_ask_obeys {c : C} {Q : A c → History C A → Prop} {E : ε → History C A → Prop}
    (hI : ObeysAsk pre h) (hc : pre h c)
    (hQ : ∀ a, ok c a → ObeysAsk pre (h ++ [⟨c, a⟩]) → Q a (h ++ [⟨c, a⟩])) :
    (ask c : Prog C A ε (A c)).wp (Hist ok) (ObeysAsk pre) Q E h := by
  rw [wp_ask]
  rintro a h' ⟨ha, rfl⟩
  have hI' : ObeysAsk pre (h ++ [⟨c, a⟩]) := (obeys_concat _).mpr ⟨hI, hc⟩
  exact ⟨hI', hQ a ha hI'⟩

/-- A weakest precondition over histories holds of the run against an oracle. -/
theorem wp_run {I : History C A → Prop} {Q : α → History C A → Prop} {E : ε → History C A → Prop}
    {o : Oracle C A} (ho : ∀ h c, ok c (o h c)) (p : Prog C A ε α) : ∀ h, I h →
      p.wp (Hist ok) I Q E h → I (p.run o h).1 ∧
        (∀ a, (p.run o h).2 = some (.ok a) → Q a (p.run o h).1) ∧
        (∀ e, (p.run o h).2 = some (.error e) → E e (p.run o h).1) := by
  induction p with
  | ret a =>
    intro h hI hQ
    refine ⟨hI, fun b hb => ?_, fun e he => by simp [run] at he⟩
    obtain rfl : a = b := by simpa [run] using hb
    exact hQ
  | raise e =>
    intro h hI hE
    refine ⟨hI, fun b hb => by simp [run] at hb, fun e' he => ?_⟩
    obtain rfl : e = e' := by simpa [run] using he
    exact hE
  | stop => exact fun h hI _ => ⟨hI, fun b hb => by simp [run] at hb, fun e he => by simp [run] at he⟩
  | call c k ih =>
    intro h hI hp
    have hk := hp (o h c) _ ⟨ho h c, rfl⟩
    exact ih (o h c) _ hk.1 hk.2

/-- **The law of every run**: against an oracle whose answers are `ok`, every
command meets its condition, and the run ends as the weakest precondition says. -/
theorem run_obeys {Q : α → History C A → Prop} {E : ε → History C A → Prop} {o : Oracle C A}
    (ho : ∀ h c, ok c (o h c)) {p : Prog C A ε α} (hp : p.wp (Hist ok) (ObeysAsk pre) Q E []) :
    ObeysAsk pre (p.run o []).1 ∧ (∀ a, (p.run o []).2 = some (.ok a) → Q a (p.run o []).1) ∧
      (∀ e, (p.run o []).2 = some (.error e) → E e (p.run o []).1) :=
  wp_run ho p [] obeys_nil hp

end Prog
end MqResiliency
