/-
# Programs side by side

Parties `i`, each running its own program against one shared state, take
their commands in any order (`Parties.Reach`). What party `i` may see and do
is `envs i`; its own part of the state is `loc i`, which no other party
touches (`Private`). A weakest precondition proved of each program alone, on
its own part, then holds of every interleaving (`Parties.local_inv`).
-/
import Mathlib.Logic.Function.Basic
import MqResiliency.Lib.Prog

namespace MqResiliency
namespace Parties

variable {ι σ τ C : Type} {A : C → Type} {ε : Type} [DecidableEq ι]

/-- What is left of each party's program, and the shared state. -/
abbrev Cfg (ι σ C : Type) (A : C → Type) (ε : Type) : Type := (ι → Prog C A ε Unit) × σ

/-- Some party issues its next command and is answered. -/
inductive Step (envs : ι → Env σ C A) : Cfg ι σ C A ε → Cfg ι σ C A ε → Prop
  | call {ps : ι → Prog C A ε Unit} {s s' : σ} (i : ι) {c : C} {k : A c → Prog C A ε Unit} {a : A c} :
      ps i = .call c k → envs i s c a s' → Step envs (ps, s) (Function.update ps i (k a), s')

/-- What the parties together may reach, cut off anywhere. -/
abbrev Reach (envs : ι → Env σ C A) : Cfg ι σ C A ε → Cfg ι σ C A ε → Prop :=
  Relation.ReflTransGen (Step envs)

/-- What a party reaches alone, the others waiting. -/
theorem reach_alone {envs : ι → Env σ C A} (i : ι) {ps : ι → Prog C A ε Unit}
    {p : Prog C A ε Unit} (hp : ps i = p) {y : Prog.Cfg σ C A ε Unit} {s : σ}
    (h : Prog.Reach (envs i) (p, s) y) : Reach envs (ps, s) (Function.update ps i y.1, y.2) := by
  subst hp
  induction h with
  | refl =>
    rw [Function.update_eq_self]
  | tail _ hs ih =>
    cases hs with
    | @call c k s₁ s₂ a hs =>
      have hself : Function.update ps i (Prog.call c k) i = .call c k := Function.update_self i _ ps
      have hstep : Step envs (Function.update ps i (Prog.call c k), s₁)
          (Function.update (Function.update ps i (Prog.call c k)) i (k a), s₂) := .call i hself hs
      rw [Function.update_idem] at hstep
      exact ih.tail hstep

/-- `loc i` is party `i`'s own: its steps are steps of `lenv i` there, and
leave the others' parts alone. -/
def Private (envs : ι → Env σ C A) (loc : ι → σ → τ) (lenv : ι → Env τ C A) : Prop :=
  ∀ i s c a s', envs i s c a s' →
    lenv i (loc i s) c a (loc i s') ∧ ∀ j, j ≠ i → loc j s' = loc j s

/-- **What each program keeps alone, it keeps in company.** -/
theorem local_inv {envs : ι → Env σ C A} {loc : ι → σ → τ} {lenv : ι → Env τ C A}
    (hP : Private envs loc lenv) {I : ι → τ → Prop} {Q : ι → Unit → τ → Prop}
    {E : ι → ε → τ → Prop} {x y : Cfg ι σ C A ε} (h : Reach envs x y)
    (hI : ∀ i, I i (loc i x.2)) (hp : ∀ i, (x.1 i).wp (lenv i) (I i) (Q i) (E i) (loc i x.2)) :
    ∀ i, I i (loc i y.2) ∧ (y.1 i).wp (lenv i) (I i) (Q i) (E i) (loc i y.2) := by
  induction h with
  | refl => exact fun i => ⟨hI i, hp i⟩
  | tail _ hs ih =>
    cases hs with
    | @call ps s s' i c k a hc hs =>
      obtain ⟨hl, hother⟩ := hP i s c a s' hs
      intro j
      by_cases hj : j = i
      · subst hj
        have hw := (ih j).2
        simp only [hc] at hw
        simpa using hw a _ hl
      · simpa [hother j hj, Function.update_of_ne hj] using ih j

/-- An invariant of the shared state that every step keeps, where `K` always
holds, holds of every interleaving. -/
theorem inv_reach {envs : ι → Env σ C A} {J K : σ → Prop} {x y : Cfg ι σ C A ε}
    (hK : ∀ z, Reach envs x z → K z.2) (hJ : ∀ i s c a s', K s → J s → envs i s c a s' → J s')
    (h : Reach envs x y) (h0 : J x.2) : J y.2 := by
  induction h with
  | refl => exact h0
  | tail hxz hs ih =>
    have hk := hK _ hxz
    cases hs with
    | call i _ hs => exact hJ i _ _ _ _ hk ih hs

end Parties
end MqResiliency
