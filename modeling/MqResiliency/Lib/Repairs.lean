/-
# Repairs

A list of checks on a state, each with a repair that makes its own check hold
and keeps the others (`Repairs`). A loop that in each pass makes the repair of
the first check that fails, until none does (`loop`), makes at most one for
each check: with one pass more than there are checks it ends (`loop_eq`), in what the
repairs come to in their order (`settle`), and all checks hold
(`holds_settle`). Of two such families of repairs of the same places, one after
the other comes to the second alone (`settle_settle`).
-/
import Mathlib.Data.List.Nodup

namespace MqResiliency

/-- Checks `C` on states `S`, and their repairs. -/
structure Repairs (C S : Type) : Type where
  holds : C → S → Prop
  [decidable : ∀ c s, Decidable (holds c s)]
  fix : C → S → S
  fixed : ∀ c s, holds c (fix c s)
  kept : ∀ {c d s}, c ≠ d → holds d s → holds d (fix c s)
  idle : ∀ {c s}, holds c s → fix c s = s

namespace Repairs

attribute [instance] Repairs.decidable

variable {C S : Type} (r : Repairs C S)

/-- The repair of the first check that fails. -/
def next (cs : List C) (s : S) : Option S := cs.findSome? fun c => if r.holds c s then none else some (r.fix c s)

/-- So many passes, each with one repair; `none` if the last one still made one. -/
def loop (cs : List C) : ℕ → S → Option S
  | 0, _ => none
  | n + 1, s =>
    match r.next cs s with
    | none => some s
    | some s' => loop cs n s'

/-- All repairs, in their order. -/
def settle (cs : List C) (s : S) : S := cs.foldl (fun s c => r.fix c s) s

variable {r}

@[simp] theorem settle_cons (c : C) (cs : List C) (s : S) : r.settle (c :: cs) s = r.settle cs (r.fix c s) := rfl

/-- A check that holds still does after any repair. -/
theorem holds_fix (c : C) {d : C} {s : S} (h : r.holds d s) : r.holds d (r.fix c s) := by
  by_cases hcd : c = d
  · exact hcd ▸ r.fixed c s
  · exact r.kept hcd h

theorem holds_settle_of_holds {d : C} : ∀ (cs : List C) {s : S}, r.holds d s → r.holds d (r.settle cs s)
  | [], _, h => h
  | c :: cs, _, h => holds_settle_of_holds cs (holds_fix c h)

theorem holds_settle : ∀ (cs : List C) (s : S), ∀ c ∈ cs, r.holds c (r.settle cs s)
  | c :: cs, s, d, hd => by
    rcases List.mem_cons.mp hd with rfl | hd
    · exact holds_settle_of_holds cs (r.fixed d s)
    · exact holds_settle cs (r.fix c s) d hd

/-- What a repair keeps, all of them keep. -/
theorem settle_induction {P : S → Prop} (h : ∀ c s, P s → P (r.fix c s)) : ∀ (cs : List C) {s : S}, P s →
    P (r.settle cs s)
  | [], _, hs => hs
  | c :: cs, _, hs => settle_induction h cs (h c _ hs)

theorem settle_of_holds : ∀ {cs : List C} {s : S}, (∀ c ∈ cs, r.holds c s) → r.settle cs s = s
  | [], _, _ => rfl
  | c :: cs, s, h => by
    have hrest : r.settle cs s = s := settle_of_holds fun d hd => h d (List.mem_cons_of_mem c hd)
    rw [settle_cons, r.idle (h c List.mem_cons_self), hrest]

/-- **After all repairs there is nothing to do.** -/
theorem settle_self (cs : List C) (s : S) : r.settle cs (r.settle cs s) = r.settle cs s :=
  settle_of_holds (holds_settle cs s)

theorem next_eq_none {cs : List C} {s : S} : r.next cs s = none ↔ ∀ c ∈ cs, r.holds c s := by
  simp [next, List.findSome?_eq_none_iff]

theorem next_append (cs ds : List C) (s : S) : r.next (cs ++ ds) s = (r.next cs s).or (r.next ds s) :=
  List.findSome?_append

theorem next_cons_of_holds {c : C} {s : S} (h : r.holds c s) (cs : List C) : r.next (c :: cs) s = r.next cs s := by
  rw [next, List.findSome?_cons, if_pos h, next]

theorem next_cons_of_not {c : C} {s : S} (h : ¬ r.holds c s) (cs : List C) : r.next (c :: cs) s = some (r.fix c s) := by
  rw [next, List.findSome?_cons, if_neg h]

/-- A repair that is made is one of those. -/
theorem exists_of_next {cs : List C} {s s' : S} (h : r.next cs s = some s') : ∃ c ∈ cs, r.fix c s = s' := by
  obtain ⟨c, hc, hfix⟩ := List.exists_of_findSome?_eq_some h
  split at hfix
  · cases hfix
  · exact ⟨c, hc, Option.some.inj hfix⟩

/-- The loop goes on behind the checks that hold. -/
theorem loop_append : ∀ (cs pre : List C) (s : S) (n : ℕ), cs.length < n → (∀ c ∈ pre, r.holds c s) →
    r.loop (pre ++ cs) n s = some (r.settle cs s)
  | [], pre, s, n + 1, _, h => by
    have hnone : r.next (pre ++ []) s = none := next_eq_none.mpr (by simpa using h)
    rw [loop, hnone]
    rfl
  | c :: cs, pre, s, n + 1, hn, h => by
    have hn' : cs.length < n := by simpa using hn
    have hassoc : pre ++ c :: cs = (pre ++ [c]) ++ cs := by simp
    have hmem : ∀ s', r.holds c s' → (∀ d ∈ pre, r.holds d s') → ∀ d ∈ pre ++ [c], r.holds d s' := by
      intro s' hc hpre d hd
      rcases List.mem_append.mp hd with hd | hd
      · exact hpre d hd
      · exact List.mem_singleton.mp hd ▸ hc
    by_cases hc : r.holds c s
    · have hrec := loop_append cs (pre ++ [c]) s (n + 1) (by omega) (hmem s hc h)
      rw [hassoc, hrec, settle_cons, r.idle hc]
    · have hnext : r.next (pre ++ c :: cs) s = some (r.fix c s) := by
        rw [next_append, next_eq_none.mpr h, Option.none_or, next_cons_of_not hc]
      have hpre : ∀ d ∈ pre, r.holds d (r.fix c s) := fun d hd => holds_fix c (h d hd)
      have hrec := loop_append cs (pre ++ [c]) (r.fix c s) n hn' (hmem _ (r.fixed c s) hpre)
      rw [loop, hnext]
      simp only
      rw [hassoc, hrec, settle_cons]

/-- **The loop ends**, after as many passes as there are checks and one more. -/
theorem loop_eq {cs : List C} {n : ℕ} (h : cs.length < n) (s : S) : r.loop cs n s = some (r.settle cs s) :=
  loop_append cs [] s n h (by simp)

/-! ### One family after another -/

section
variable {r₁ r₂ : Repairs C S} {placed free : C → S → Prop}

/-- A repair of the second family goes before those of other places by the first. -/
theorem fix_settle {c : C} (hkeep : ∀ d s, placed c s → placed c (r₁.fix d s))
    (hcomm : ∀ d s, c ≠ d → placed c s → r₂.fix c (r₁.fix d s) = r₁.fix d (r₂.fix c s)) :
    ∀ (cs : List C) {s : S}, c ∉ cs → placed c s →
      r₂.fix c (r₁.settle cs s) = r₁.settle cs (r₂.fix c s)
  | [], _, _, _ => rfl
  | d :: cs, s, hc, hs => by
    obtain ⟨hcd, hcs⟩ : ¬ c = d ∧ c ∉ cs := by simpa using hc
    have hrest := fix_settle hkeep hcomm cs hcs (hkeep d s hs)
    rw [settle_cons, settle_cons, hrest, hcomm d s hcd hs]

/-- **Where the second family makes of its places what it makes of them alone,
it comes to the same after the first as alone.** -/
theorem settle_settle (hplaced : ∀ c s, placed c (r₁.fix c s))
    (hkeep : ∀ c d s, placed c s → placed c (r₁.fix d s))
    (hcomm : ∀ c d s, c ≠ d → placed c s → r₂.fix c (r₁.fix d s) = r₁.fix d (r₂.fix c s))
    (habsorb : ∀ c s, free c s → r₂.fix c (r₁.fix c s) = r₂.fix c s)
    (hfree : ∀ c d s, c ≠ d → free d s → free d (r₂.fix c s)) :
    ∀ {cs : List C} {s : S}, cs.Nodup → (∀ c ∈ cs, free c s) →
      r₂.settle cs (r₁.settle cs s) = r₂.settle cs s
  | [], _, _, _ => rfl
  | c :: cs, s, hnodup, hs => by
    obtain ⟨hc, hcs⟩ := List.nodup_cons.mp hnodup
    have hmove : r₂.fix c (r₁.settle cs (r₁.fix c s)) = r₁.settle cs (r₂.fix c s) := by
      rw [fix_settle (hkeep c) (hcomm c) cs hc (hplaced c s), habsorb c s (hs c List.mem_cons_self)]
    have hrest : ∀ d ∈ cs, free d (r₂.fix c s) := fun d hd =>
      hfree c d s (fun h => hc (h ▸ hd)) (hs d (List.mem_cons_of_mem c hd))
    calc r₂.settle (c :: cs) (r₁.settle (c :: cs) s)
        = r₂.settle cs (r₂.fix c (r₁.settle cs (r₁.fix c s))) := rfl
      _ = r₂.settle cs (r₁.settle cs (r₂.fix c s)) := by rw [hmove]
      _ = r₂.settle cs (r₂.fix c s) := settle_settle hplaced hkeep hcomm habsorb hfree hcs hrest

end

end Repairs
end MqResiliency
