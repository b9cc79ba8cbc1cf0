/-
# Attempts

Attempts at something, of which at most `n` are allowed: another one is made
only where the last one asks for it, and as long as the last one asks and one
is left (`Attempts`). The two rules are those of a loop: the first attempt is
the last (`Attempts.last`), or it asks and the rest follow (`Attempts.next`).
-/
import Mathlib.Data.List.Basic
import Mathlib.Data.Nat.Notation

namespace MqResiliency

/-- The attempts of a loop that makes `n` of them at most. -/
structure Attempts {A : Type} (again : A → Prop) (n : ℕ) (as : List A) : Prop where
  made : as ≠ []
  bounded : as.length ≤ n
  asked : ∀ a ∈ as.dropLast, again a
  ended : as.length < n → ∀ a, as.getLast? = some a → ¬ again a

namespace Attempts

variable {A : Type} {again : A → Prop} {n : ℕ} {a : A} {as : List A}

/-- One attempt, that asks for no other or is the only one allowed. -/
theorem last (h : ¬ again a ∨ n = 0) : Attempts again (n + 1) [a] where
  made := List.cons_ne_nil a []
  bounded := by simp
  asked := by simp
  ended := by
    intro hlt b hb
    obtain rfl : a = b := by simpa using hb
    refine h.resolve_right fun hn => ?_
    simp [hn] at hlt

/-- An attempt that asks for another, and the rest. -/
theorem next (h : again a) (hrest : Attempts again n as) : Attempts again (n + 1) (a :: as) where
  made := List.cons_ne_nil a as
  bounded := Nat.succ_le_succ hrest.bounded
  asked := by
    intro b hb
    rw [List.dropLast_cons_of_ne_nil hrest.made] at hb
    rcases List.mem_cons.mp hb with rfl | hb
    · exact h
    · exact hrest.asked b hb
  ended := by
    intro hlt b hb
    rw [List.getLast?_cons, Option.some_inj] at hb
    have hlast := List.getLast?_eq_some_getLast hrest.made
    rw [hlast, Option.getD_some] at hb
    exact hrest.ended (Nat.lt_of_succ_lt_succ hlt) b (hlast.trans (congrArg some hb))

/-- The attempt that was made last. -/
theorem exists_last (h : Attempts again n as) : ∃ a, as.getLast? = some a :=
  ⟨as.getLast h.made, List.getLast?_eq_some_getLast h.made⟩

/-- No other attempts begin with all of these. -/
theorem eq_of_isPrefix {bs : List A} (h : Attempts again n as) (hb : Attempts again n bs) (hp : as <+: bs) :
    as = bs := by
  by_contra hne
  obtain ⟨a, ha⟩ := h.exists_last
  have hlt : as.length < bs.length := by
    by_contra hle
    exact hne (hp.eq_of_length (Nat.le_antisymm hp.length_le (by omega)))
  -- the last of the fewer attempts is one that asked for another
  have hmem : a ∈ bs.dropLast := by
    have hpre : as <+: bs.dropLast := by
      rw [List.dropLast_eq_take, List.prefix_take_iff]
      exact ⟨hp, by omega⟩
    exact hpre.subset (List.mem_of_getLast? ha)
  have hbound := hb.bounded
  exact h.ended (by omega) a ha (hb.asked a hmem)

/-- What is made of attempts at the head of a list is determined. -/
theorem unique {bs cs : List A} (h : Attempts again n as) (hb : Attempts again n bs) (hac : as <+: cs)
    (hbc : bs <+: cs) : as = bs := by
  by_cases hle : as.length ≤ bs.length
  · exact h.eq_of_isPrefix hb (List.prefix_of_prefix_length_le hac hbc hle)
  · exact (hb.eq_of_isPrefix h (List.prefix_of_prefix_length_le hbc hac (by omega))).symm

end Attempts
end MqResiliency
