/-
# Programs that ask

A program issues commands one at a time and goes on with the answer
(`Prog`): an MQI call and its reason code, a remote command and its exit
status. What answers, the environment (`Env`), is a relation on its own
state, so a program is proved against everything the environment may do.

`wp` is the weakest precondition of a program that keeps an invariant `I` at
every call: `wp_reach` turns it into a fact about every configuration the
program can reach, cut off anywhere. A loop without a bound is a recursion on
fuel that ends in `stop`, where the run is followed no further; every state a
run of the loop reaches is reached by a run with enough fuel.
-/
import Mathlib.Data.Nat.Notation
import Mathlib.Logic.Relation
import Mathlib.Tactic.ByContra

namespace MqResiliency

/-- A program over commands `C`, each with its answers, that raises `ε` or
returns `α`. -/
inductive Prog (C : Type) (A : C → Type) (ε α : Type) : Type where
  | ret (a : α)
  | raise (e : ε)
  | stop
  | call (c : C) (k : A c → Prog C A ε α)

/-- What an environment in state `s` may answer, and its state after. -/
abbrev Env (σ C : Type) (A : C → Type) : Type := σ → (c : C) → A c → σ → Prop

namespace Prog

variable {C : Type} {A : C → Type} {ε α β σ : Type}

def bind : Prog C A ε α → (α → Prog C A ε β) → Prog C A ε β
  | ret a, f => f a
  | raise e, _ => raise e
  | stop, _ => stop
  | call c k, f => call c fun a => (k a).bind f

/-- `try p except e: h e`. -/
def handle : Prog C A ε α → (ε → Prog C A ε α) → Prog C A ε α
  | ret a, _ => ret a
  | raise e, h => h e
  | stop, _ => stop
  | call c k, h => call c fun a => (k a).handle h

instance : Monad (Prog C A ε) where
  pure := ret
  bind := bind

instance : MonadExcept ε (Prog C A ε) where
  throw := raise
  tryCatch := handle

/-- `try p finally fin`. -/
def ensure (p : Prog C A ε α) (fin : Prog C A ε Unit) : Prog C A ε α :=
  (p.handle fun e => fin.bind fun _ => raise e).bind fun a => fin.bind fun _ => ret a

/-- One command. -/
def ask (c : C) : Prog C A ε (A c) := call c ret

/-- A program that has to answer `true`. -/
def must (p : Prog C A ε Bool) (e : ε) : Prog C A ε Unit := p.bind fun ok => if ok then ret () else raise e

/-! ### The weakest precondition -/

/-- From `s`, every answer keeps `I`, a return ends in `Q` and a raise in `E`. -/
def wp (env : Env σ C A) (I : σ → Prop) :
    Prog C A ε α → (α → σ → Prop) → (ε → σ → Prop) → σ → Prop
  | ret a, Q, _, s => Q a s
  | raise e, _, E, s => E e s
  | stop, _, _, _ => True
  | call c k, Q, E, s => ∀ a s', env s c a s' → I s' ∧ (k a).wp env I Q E s'

variable {env : Env σ C A} {I : σ → Prop}

@[simp] theorem wp_pure (a : α) (Q : α → σ → Prop) (E : ε → σ → Prop) (s : σ) :
    (pure a : Prog C A ε α).wp env I Q E s ↔ Q a s := Iff.rfl

@[simp] theorem wp_ret (a : α) (Q : α → σ → Prop) (E : ε → σ → Prop) (s : σ) :
    (ret a : Prog C A ε α).wp env I Q E s ↔ Q a s := Iff.rfl

@[simp] theorem wp_throw (e : ε) (Q : α → σ → Prop) (E : ε → σ → Prop) (s : σ) :
    (throw e : Prog C A ε α).wp env I Q E s ↔ E e s := Iff.rfl

@[simp] theorem wp_raise (e : ε) (Q : α → σ → Prop) (E : ε → σ → Prop) (s : σ) :
    (raise e : Prog C A ε α).wp env I Q E s ↔ E e s := Iff.rfl

@[simp] theorem wp_stop (Q : α → σ → Prop) (E : ε → σ → Prop) (s : σ) :
    (stop : Prog C A ε α).wp env I Q E s := trivial

theorem wp_ask (c : C) (Q : A c → σ → Prop) (E : ε → σ → Prop) (s : σ) :
    (ask c : Prog C A ε (A c)).wp env I Q E s ↔ ∀ a s', env s c a s' → I s' ∧ Q a s' := Iff.rfl

theorem wp_bind' (p : Prog C A ε α) (f : α → Prog C A ε β) (Q : β → σ → Prop) (E : ε → σ → Prop) :
    ∀ s, (p.bind f).wp env I Q E s ↔ p.wp env I (fun a s => (f a).wp env I Q E s) E s := by
  induction p with
  | ret a => exact fun s => Iff.rfl
  | raise e => exact fun s => Iff.rfl
  | stop => exact fun s => Iff.rfl
  | call c k ih =>
    intro s
    simp only [bind, wp]
    exact forall_congr' fun a => forall_congr' fun s' => forall_congr' fun _ =>
      and_congr_right fun _ => ih a s'

@[simp] theorem wp_bind (p : Prog C A ε α) (f : α → Prog C A ε β) (Q : β → σ → Prop)
    (E : ε → σ → Prop) (s : σ) :
    (p >>= f).wp env I Q E s ↔ p.wp env I (fun a s => (f a).wp env I Q E s) E s :=
  wp_bind' p f Q E s

theorem wp_handle (p : Prog C A ε α) (h : ε → Prog C A ε α) (Q : α → σ → Prop) (E : ε → σ → Prop) :
    ∀ s, (p.handle h).wp env I Q E s ↔ p.wp env I Q (fun e s => (h e).wp env I Q E s) s := by
  induction p with
  | ret a => exact fun s => Iff.rfl
  | raise e => exact fun s => Iff.rfl
  | stop => exact fun s => Iff.rfl
  | call c k ih =>
    intro s
    simp only [handle, wp]
    exact forall_congr' fun a => forall_congr' fun s' => forall_congr' fun _ =>
      and_congr_right fun _ => ih a s'

@[simp] theorem wp_tryCatch (p : Prog C A ε α) (h : ε → Prog C A ε α) (Q : α → σ → Prop)
    (E : ε → σ → Prop) (s : σ) :
    (tryCatch p h).wp env I Q E s ↔ p.wp env I Q (fun e s => (h e).wp env I Q E s) s :=
  wp_handle p h Q E s

@[simp] theorem wp_ensure (p : Prog C A ε α) (fin : Prog C A ε Unit) (Q : α → σ → Prop)
    (E : ε → σ → Prop) (s : σ) :
    (p.ensure fin).wp env I Q E s ↔
      p.wp env I (fun a s => fin.wp env I (fun _ s => Q a s) E s)
        (fun e s => fin.wp env I (fun _ s => E e s) E s) s := by
  simp only [ensure, wp_bind', wp_handle, wp_ret, wp_raise]

/-- A weaker postcondition is enough. -/
theorem wp_mono {Q Q' : α → σ → Prop} {E E' : ε → σ → Prop} (hQ : ∀ a s, Q a s → Q' a s)
    (hE : ∀ e s, E e s → E' e s) (p : Prog C A ε α) : ∀ s, p.wp env I Q E s → p.wp env I Q' E' s := by
  induction p with
  | ret a => exact hQ a
  | raise e => exact hE e
  | stop => exact fun _ _ => trivial
  | call c k ih => exact fun s h a s' hs => ⟨(h a s' hs).1, ih a s' (h a s' hs).2⟩

/-- And so it is for what is returned only. -/
theorem wp_post {P Q : α → σ → Prop} {E : ε → σ → Prop} {p : Prog C A ε α} {s : σ} (hp : p.wp env I P E s)
    (hQ : ∀ a s, P a s → Q a s) : p.wp env I Q E s :=
  wp_mono hQ (fun _ _ h => h) p s hp

/-- One program after the other. -/
theorem wp_then {P : α → σ → Prop} {Q : β → σ → Prop} {E : ε → σ → Prop} {p : Prog C A ε α}
    {f : α → Prog C A ε β} {s : σ} (hp : p.wp env I P E s) (hf : ∀ a s, P a s → (f a).wp env I Q E s) :
    (p >>= f).wp env I Q E s := by
  rw [wp_bind]
  exact wp_post hp hf

theorem wp_must (p : Prog C A ε Bool) (e : ε) (Q : Unit → σ → Prop) (E : ε → σ → Prop) (s : σ) :
    (must p e).wp env I Q E s ↔ p.wp env I (fun ok s => if ok = true then Q () s else E e s) E s := by
  have hpost : (fun ok s => (if ok then ret () else raise e : Prog C A ε Unit).wp env I Q E s) =
      fun (ok : Bool) s => if ok = true then Q () s else E e s := by
    funext ok s
    cases ok <;> rfl
  rw [must, wp_bind', hpost]

/-- What holds for each of two postconditions holds for both. -/
theorem wp_and {Q Q' : α → σ → Prop} {E E' : ε → σ → Prop} (p : Prog C A ε α) :
    ∀ s, p.wp env I Q E s → p.wp env I Q' E' s →
      p.wp env I (fun a s => Q a s ∧ Q' a s) (fun e s => E e s ∧ E' e s) s := by
  induction p with
  | ret a => exact fun _ h h' => ⟨h, h'⟩
  | raise e => exact fun _ h h' => ⟨h, h'⟩
  | stop => exact fun _ _ _ => trivial
  | call c k ih =>
    exact fun s h h' a s' hs => ⟨(h a s' hs).1, ih a s' (h a s' hs).2 (h' a s' hs).2⟩

/-- What holds against every answer of `env'` holds against those of `env`. -/
theorem wp_of_sub {env' : Env σ C A} (hsub : ∀ s c a s', env s c a s' → env' s c a s')
    {Q : α → σ → Prop} {E : ε → σ → Prop} (p : Prog C A ε α) :
    ∀ s, p.wp env' I Q E s → p.wp env I Q E s := by
  induction p with
  | ret a => exact fun _ h => h
  | raise e => exact fun _ h => h
  | stop => exact fun _ h => h
  | call c k ih =>
    exact fun s h a s' hs => ⟨(h a s' (hsub _ _ _ _ hs)).1, ih a s' (h a s' (hsub _ _ _ _ hs)).2⟩

/-- A weaker invariant is enough. -/
theorem wp_weaken {I' : σ → Prop} (hI : ∀ s, I s → I' s) {Q : α → σ → Prop} {E : ε → σ → Prop}
    (p : Prog C A ε α) : ∀ s, p.wp env I Q E s → p.wp env I' Q E s := by
  induction p with
  | ret a => exact fun _ h => h
  | raise e => exact fun _ h => h
  | stop => exact fun _ h => h
  | call c k ih => exact fun s h a s' hs => ⟨hI s' (h a s' hs).1, ih a s' (h a s' hs).2⟩

/-- What every answer keeps, every program keeps. -/
theorem wp_of_inv (hI : ∀ s c a s', I s → env s c a s' → I s') (p : Prog C A ε α) :
    ∀ s, I s → p.wp env I (fun _ _ => True) (fun _ _ => True) s := by
  induction p with
  | ret a => exact fun _ _ => trivial
  | raise e => exact fun _ _ => trivial
  | stop => exact fun _ _ => trivial
  | call c k ih =>
    intro s h a s' hs
    have h' := hI s c a s' h hs
    exact ⟨h', ih a s' h'⟩

/-! ### What a program issues -/

/-- All commands that the program may issue are such. -/
def Issues (K : C → Prop) : Prog C A ε α → Prop
  | ret _ => True
  | raise _ => True
  | stop => True
  | call c k => K c ∧ ∀ a, (k a).Issues K

variable {K : C → Prop}

theorem issues_ask {c : C} (h : K c) : (ask c : Prog C A ε (A c)).Issues K := ⟨h, fun _ => trivial⟩

theorem issues_bind {p : Prog C A ε α} {f : α → Prog C A ε β} (hp : p.Issues K)
    (hf : ∀ a, (f a).Issues K) : (p >>= f).Issues K := by
  induction p with
  | ret a => exact hf a
  | raise e => trivial
  | stop => trivial
  | call c k ih => exact ⟨hp.1, fun a => ih a (hp.2 a)⟩

theorem issues_tryCatch {p : Prog C A ε α} {f : ε → Prog C A ε α} (hp : p.Issues K)
    (hf : ∀ e, (f e).Issues K) : (tryCatch p f).Issues K := by
  induction p with
  | ret a => trivial
  | raise e => exact hf e
  | stop => trivial
  | call c k ih => exact ⟨hp.1, fun a => ih a (hp.2 a)⟩

theorem Issues.mono {K' : C → Prop} (hK : ∀ c, K c → K' c) {p : Prog C A ε α} (hp : p.Issues K) :
    p.Issues K' := by
  induction p with
  | ret a => trivial
  | raise e => trivial
  | stop => trivial
  | call c k ih => exact ⟨hK c hp.1, fun a => ih a (hp.2 a)⟩

/-- What such commands keep, the program keeps. -/
theorem wp_of_issues {P : σ → Prop} (hK : ∀ s c a s', K c → P s → env s c a s' → I s' ∧ P s')
    {p : Prog C A ε α} (hp : p.Issues K) :
    ∀ s, P s → p.wp env I (fun _ s' => P s') (fun _ s' => P s') s := by
  induction p with
  | ret a => exact fun _ hs => hs
  | raise e => exact fun _ hs => hs
  | stop => exact fun _ _ => trivial
  | call c k ih =>
    intro s hs a s' he
    obtain ⟨hI, hP⟩ := hK s c a s' hp.1 hs he
    exact ⟨hI, ih a (hp.2 a) s' hP⟩

/-! ### What a program reaches -/

/-- A program part of the way: what is left to do, and the environment. -/
abbrev Cfg (σ C : Type) (A : C → Type) (ε α : Type) : Type := Prog C A ε α × σ

/-- The next command is issued and answered. -/
inductive Step (env : Env σ C A) : Cfg σ C A ε α → Cfg σ C A ε α → Prop
  | call {c : C} {k : A c → Prog C A ε α} {s s' : σ} {a : A c} :
      env s c a s' → Step env (Prog.call c k, s) (k a, s')

/-- What a run may reach, cut off after any number of commands. -/
abbrev Reach (env : Env σ C A) : Cfg σ C A ε α → Cfg σ C A ε α → Prop :=
  Relation.ReflTransGen (Step env)

/-- What a program reaches, it reaches before another. -/
theorem reach_then {x y : Cfg σ C A ε α} (h : Reach env x y) (f : α → Prog C A ε β) :
    Reach env (x.1.bind f, x.2) (y.1.bind f, y.2) := by
  have hstep : ∀ x y : Cfg σ C A ε α, Step env x y → Step env (x.1.bind f, x.2) (y.1.bind f, y.2) := by
    rintro _ _ ⟨hs⟩
    exact .call hs
  exact Relation.ReflTransGen.lift (fun x : Cfg σ C A ε α => (x.1.bind f, x.2)) hstep x y h

/-- **Every reachable configuration keeps the invariant** and still has the
weakest precondition of what is left. -/
theorem wp_reach {Q : α → σ → Prop} {E : ε → σ → Prop} {x y : Cfg σ C A ε α}
    (h : Reach env x y) (hI : I x.2) (hp : x.1.wp env I Q E x.2) : I y.2 ∧ y.1.wp env I Q E y.2 := by
  induction h with
  | refl => exact ⟨hI, hp⟩
  | tail _ hs ih =>
    cases hs with
    | call hs => exact ih.2 _ _ hs

/-- An invariant of every reachable configuration is kept at every call. -/
theorem wp_of_reach (p : Prog C A ε α) : ∀ s, (∀ y, Reach env (p, s) y → I y.2) →
    p.wp env I (fun _ _ => True) (fun _ _ => True) s := by
  induction p with
  | ret a => exact fun _ _ => trivial
  | raise e => exact fun _ _ => trivial
  | stop => exact fun _ _ => trivial
  | call c k ih =>
    intro s h a s' hs
    have hstep : Step env (Prog.call c k, s) (k a, s') := .call hs
    exact ⟨h _ (.single hstep), ih a s' fun y hy => h y (.head hstep hy)⟩

/-- What no weakest precondition excludes is reached. -/
theorem reach_of_not_wp {p : Prog C A ε α} {s : σ}
    (h : ¬ p.wp env I (fun _ _ => True) (fun _ _ => True) s) : ∃ y, Reach env (p, s) y ∧ ¬ I y.2 := by
  by_contra hno
  exact h (wp_of_reach p s fun y hy => by_contra fun hI => hno ⟨y, hy, hI⟩)

/-- A program that may end in a return does. -/
theorem reach_ret_of_not_wp : ∀ (p : Prog C A ε α) {s : σ},
    ¬ p.wp env (fun _ => True) (fun _ _ => False) (fun _ _ => True) s → ∃ a y, Reach env (p, s) (ret a, y)
  | ret a, s, _ => ⟨a, s, .refl⟩
  | raise _, _, h => absurd trivial h
  | stop, _, h => absurd trivial h
  | call c k, s, h => by
    obtain ⟨a, s', hs, hk⟩ : ∃ a s', env s c a s' ∧
        ¬ (k a).wp env (fun _ => True) (fun _ _ => False) (fun _ _ => True) s' := by
      by_contra hno
      exact h fun a s' hs => ⟨trivial, by_contra fun hk => hno ⟨a, s', hs, hk⟩⟩
    obtain ⟨v, y, hy⟩ := reach_ret_of_not_wp (k a) hk
    exact ⟨v, y, .head (.call hs) hy⟩

/-- The program, answered by `f` at every command. -/
def exec (f : (s : σ) → (c : C) → A c × σ) : Prog C A ε α → σ → Cfg σ C A ε α
  | ret a, s => (ret a, s)
  | raise e, s => (raise e, s)
  | stop, s => (stop, s)
  | call c k, s => (k (f s c).1).exec f (f s c).2

/-- Answers that the environment may give, while `J` holds, lead to what it
may reach. -/
theorem reach_exec {J : σ → Prop} {f : (s : σ) → (c : C) → A c × σ}
    (hf : ∀ s c, J s → env s c (f s c).1 (f s c).2 ∧ J (f s c).2) (p : Prog C A ε α) :
    ∀ s, J s → Reach env (p, s) (p.exec f s) := by
  induction p with
  | ret a => exact fun s _ => .refl
  | raise e => exact fun s _ => .refl
  | stop => exact fun s _ => .refl
  | call c k ih =>
    intro s hs
    obtain ⟨he, hJ⟩ := hf s c hs
    have hstep : Step env (Prog.call c k, s) (k (f s c).1, (f s c).2) := .call he
    exact .head hstep (ih (f s c).1 (f s c).2 hJ)

/-- The first commands of the program, answered by `f`. -/
def execFor (f : (s : σ) → (c : C) → A c × σ) : ℕ → Prog C A ε α → σ → Cfg σ C A ε α
  | n + 1, call c k, s => (k (f s c).1).execFor f n (f s c).2
  | _, p, s => (p, s)

theorem reach_execFor {f : (s : σ) → (c : C) → A c × σ} (hf : ∀ s c, env s c (f s c).1 (f s c).2) :
    ∀ (n : ℕ) (p : Prog C A ε α) (s : σ), Reach env (p, s) (p.execFor f n s)
  | 0, _, _ => .refl
  | _ + 1, ret _, _ => .refl
  | _ + 1, raise _, _ => .refl
  | _ + 1, stop, _ => .refl
  | n + 1, call c k, s =>
    have hstep : Step env (Prog.call c k, s) (k (f s c).1, (f s c).2) := .call (hf s c)
    .head hstep (reach_execFor hf n (k (f s c).1) (f s c).2)

/-- The answers of `env` that meet `c`. -/
def restrict (env : Env σ C A) (cond : Env σ C A) : Env σ C A :=
  fun s c a s' => env s c a s' ∧ cond s c a s'

end Prog
end MqResiliency
