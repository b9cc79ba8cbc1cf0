/-
# Calls of a program that may be interrupted

`Mq.Allowed` says what a call may do that answers. Here a call may also be
cut short by an exception of the program's own (`Ended.interrupt`), and one
that fails may have done anything that it does when it succeeds, nothing, or
have rolled the unit of work back (`Outcome`): a get may have taken its
message, a backout may have left the unit of work open.
-/
import MqResiliency.Lib.Mq

namespace MqResiliency
namespace Mq

/-- How a call ends. -/
inductive Ended (α : Type) where
  | ok (a : α)
  | error (r : Reason)
  | interrupt

variable {Q M K N : Type}

/-- What a call does that succeeds with an output, on a usable handle. -/
def Does (correl : M → K) (attr : N) : (c : Call Q M K) → c.Out N → Effect Q M → Prop
  | .connect, _, e => e = .roll true
  | .get q sel, m, e => (∀ k, sel = some k → correl m = k) ∧ e = .took q m
  | .put q m, _, e => e = .gave q m
  | .openQ _, _, e => e = .nop
  | .closeQ, _, e => e = .nop
  | .inquire, n, e => n = attr ∧ e = .nop
  | .commit, _, e => e = .land true
  | .backout, _, e => e = .roll true
  | .disconnect, _, e => e = .land false

/-- What a call may do that fails, or is interrupted. On a dead handle it does
nothing; a commit may have cost the connection too. -/
def MayDo (correl : M → K) (attr : N) (c : Call Q M K) (usable : Bool) (e : Effect Q M) : Prop :=
  e = .nop ∨ e = .roll false ∨
    (usable = true ∧ (e = .roll true ∨ (∃ v, Does correl attr c v e) ∨ (c = .commit ∧ e = .land false)))

/-- The effects `c` may have when it ends in `a`. A get that finds no message
takes none. -/
def Outcome (correl : M → K) (attr : N) (c : Call Q M K) (usable : Bool) (e : Effect Q M) :
    Ended (c.Out N) → Prop
  | .ok v => ((usable = true ∨ c = .connect) ∧ Does correl attr c v e) ∨
      (usable = false ∧ c = .disconnect ∧ e = .roll false)
  | .error r => MayDo correl attr c usable e ∧ (r = rcNoMsgAvailable → ∀ q m, e ≠ .took q m)
  | .interrupt => MayDo correl attr c usable e

/-! ### Which call has which effect -/

section

variable {correl : M → K} {attr : N} {c : Call Q M K} {usable : Bool} {a : Ended (c.Out N)}

/-- Nothing, a rollback, or what the call is for; a commit may cost the
connection. -/
theorem MayDo.cases {e : Effect Q M} (h : MayDo correl attr c usable e) : e = .nop ∨ (∃ b, e = .roll b) ∨
    (usable = true ∧ ((∃ v, Does correl attr c v e) ∨ (c = .commit ∧ e = .land false))) := by
  rcases h with rfl | rfl | ⟨husable, rfl | hdoes⟩
  · exact .inl rfl
  · exact .inr (.inl ⟨false, rfl⟩)
  · exact .inr (.inl ⟨true, rfl⟩)
  · exact .inr (.inr ⟨husable, hdoes⟩)

theorem Outcome.cases {e : Effect Q M} (h : Outcome correl attr c usable e a) : e = .nop ∨ (∃ b, e = .roll b) ∨
    ((usable = true ∨ c = .connect) ∧ ((∃ v, Does correl attr c v e) ∨ (c = .commit ∧ e = .land false))) := by
  have hmay : MayDo correl attr c usable e → e = .nop ∨ (∃ b, e = .roll b) ∨ ((usable = true ∨ c = .connect) ∧
      ((∃ v, Does correl attr c v e) ∨ (c = .commit ∧ e = .land false))) := fun h =>
    h.cases.imp_right fun h => h.imp_right fun h => ⟨.inl h.1, h.2⟩
  cases a with
  | ok v =>
    rcases h with ⟨husable, hdoes⟩ | ⟨-, -, rfl⟩
    · exact .inr (.inr ⟨husable, .inl ⟨v, hdoes⟩⟩)
    · exact .inr (.inl ⟨false, rfl⟩)
  | error r => exact hmay h.1
  | interrupt => exact hmay h

theorem Outcome.took {q : Q} {m : M} (h : Outcome correl attr c usable (.took q m) a) :
    ∃ sel, c = .get q sel := by
  rcases h.cases with h | ⟨b, h⟩ | ⟨-, ⟨v, h⟩ | ⟨-, h⟩⟩
  · cases h
  · cases h
  · cases c with
    | get q' sel =>
      cases h.2
      exact ⟨sel, rfl⟩
    | inquire => exact nomatch h.2
    | connect | put | openQ | closeQ | commit | backout | disconnect => exact nomatch h
  · cases h

theorem Outcome.gave {q : Q} {m : M} (h : Outcome correl attr c usable (.gave q m) a) : c = .put q m := by
  rcases h.cases with h | ⟨b, h⟩ | ⟨-, ⟨v, h⟩ | ⟨-, h⟩⟩
  · cases h
  · cases h
  · cases c with
    | put q' m' =>
      cases h
      rfl
    | get | inquire => exact nomatch h.2
    | connect | openQ | closeQ | commit | backout | disconnect => exact nomatch h
  · cases h

theorem Outcome.land {b : Bool} (h : Outcome correl attr c usable (.land b) a) :
    usable = true ∧ (c = .commit ∨ c = .disconnect) := by
  rcases h.cases with h | ⟨b, h⟩ | ⟨husable, ⟨v, h⟩ | ⟨rfl, -⟩⟩
  · cases h
  · cases h
  · cases c with
    | commit => exact ⟨husable.resolve_right (by simp), .inl rfl⟩
    | disconnect => exact ⟨husable.resolve_right (by simp), .inr rfl⟩
    | get | inquire => exact nomatch h.2
    | connect | put | openQ | closeQ | backout => exact nomatch h
  · exact ⟨husable.resolve_right (by simp), .inl rfl⟩

end

/-- How a call that answers ends. -/
def Ended.ofAnswer {α : Type} : Except Reason α → Ended α
  | .ok a => .ok a
  | .error r => .error r

theorem Failed.mayDo {correl : M → K} {attr : N} {c : Call Q M K} {r : Reason} {usable : Bool}
    {e : Effect Q M} (h : Failed r usable e) : MayDo correl attr c usable e := by
  unfold Failed at h
  split at h
  · exact .inr (.inl h)
  · rename_i hdead
    have husable : usable = true := by simpa using (not_or.mp hdead).1
    rcases h with rfl | ⟨-, rfl⟩
    · exact .inl rfl
    · exact .inr (.inr ⟨husable, .inl rfl⟩)

theorem Failed.takes_none {r : Reason} {usable : Bool} {e : Effect Q M} (h : Failed r usable e) (q : Q) (m : M) :
    e ≠ .took q m := by
  rcases h.cases with rfl | ⟨b, rfl⟩ <;> simp

/-- What may be answered may happen. -/
theorem Outcome.of_allowed {correl : M → K} {attr : N} {c : Call Q M K} {a : c.Answer N} {usable : Bool}
    {e : Effect Q M} (h : Allowed correl attr c a usable e) :
    Outcome correl attr c usable e (.ofAnswer a) := by
  have hfailed : ∀ r, Failed r usable e → Outcome correl attr c usable e (.error r) := fun r hr =>
    ⟨hr.mayDo, fun _ => hr.takes_none⟩
  have hdead : e = .roll false → ∀ r, Outcome correl attr c usable e (.error r) := by
    rintro rfl r
    exact ⟨.inr (.inl rfl), by simp⟩
  have hlive : usable = true → e = .roll true ∨ (c = .commit ∧ e = .land true) ∨
      (c = .disconnect ∧ e = .land false) → ∀ r, Outcome correl attr c usable e (.error r) := by
    rintro husable (rfl | ⟨rfl, rfl⟩ | ⟨rfl, rfl⟩) r
    · exact ⟨.inr (.inr ⟨husable, .inl rfl⟩), by simp⟩
    · exact ⟨.inr (.inr ⟨husable, .inr (.inl ⟨(), rfl⟩)⟩), by simp⟩
    · exact ⟨.inr (.inr ⟨husable, .inr (.inl ⟨(), rfl⟩)⟩), by simp⟩
  cases a with
  | ok v =>
    cases c with
    | connect => exact .inl ⟨.inr rfl, h⟩
    | get | put | openQ | closeQ | inquire | commit | backout => exact .inl ⟨.inl h.1, h.2⟩
    | disconnect =>
      cases usable
      · exact .inr ⟨rfl, rfl, h⟩
      · exact .inl ⟨.inl rfl, h⟩
  | error r =>
    cases c with
    | connect =>
      obtain rfl : e = .nop := h
      exact ⟨.inl rfl, by simp⟩
    | get | put | openQ | closeQ | inquire => exact hfailed r h
    | commit =>
      simp only [Allowed] at h
      split at h
      · exact hdead h r
      · rename_i hgone
        have husable : usable = true := by simpa using (not_or.mp hgone).1
        rcases h with ⟨-, rfl⟩ | ⟨-, rfl | rfl⟩
        · exact hlive husable (.inl rfl) r
        · exact hlive husable (.inr (.inl ⟨rfl, rfl⟩)) r
        · exact hlive husable (.inl rfl) r
    | backout =>
      simp only [Allowed] at h
      split at h
      · exact hdead h r
      · rename_i hgone
        have husable : usable = true := by simpa using (not_or.mp hgone).1
        exact hlive husable (.inl h) r
    | disconnect =>
      cases usable
      · exact hdead h r
      · rcases h with rfl | rfl
        · exact hlive rfl (.inr (.inr ⟨rfl, rfl⟩)) r
        · exact hdead rfl r

end Mq
end MqResiliency
