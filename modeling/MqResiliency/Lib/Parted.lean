/-
# Texts that come apart

Two texts are `Parted` when nothing put behind them makes them equal. Texts of
pieces that are equal or parted are parted at the first piece that is
(`flatMap_parted`); where pieces with different keys are parted, a text has one
list of keys (`eq_of_flatMap_eq`).
-/
import Mathlib.Algebra.Order.BigOperators.Group.List
import Mathlib.Algebra.Order.Ring.Nat
import Mathlib.Data.List.Perm.Subperm

namespace MqResiliency

section
variable {α κ : Type}

def Parted (x y : List α) : Prop := ∀ u v, x ++ u ≠ y ++ v

theorem Parted.append {x y : List α} (h : Parted x y) (s t : List α) : Parted (x ++ s) (y ++ t) := by
  intro u v heq
  rw [List.append_assoc, List.append_assoc] at heq
  exact h _ _ heq

theorem Parted.append_left {x y : List α} (h : Parted x y) (w : List α) : Parted (w ++ x) (w ++ y) := by
  intro u v heq
  rw [List.append_assoc, List.append_assoc] at heq
  exact h u v (List.append_cancel_left heq)

theorem Parted.ne {x y : List α} (h : Parted x y) : x ≠ y := fun heq => h [] [] (by rw [heq])

/-- Of texts that are not parted one goes on the other. -/
theorem parted_or_prefix (x y : List α) : Parted x y ∨ x <+: y ∨ y <+: x := by
  by_cases h : Parted x y
  · exact .inl h
  · obtain ⟨u, v, heq⟩ : ∃ u v, x ++ u = y ++ v := by simpa [Parted] using h
    exact .inr (List.prefix_or_prefix_of_prefix ⟨u, rfl⟩ ⟨v, heq.symm⟩)

/-- Before a mark that both have, different texts without it are parted. -/
theorem parted_of_ne {x y : List α} {mark : α} (hx : mark ∉ x) (hy : mark ∉ y) (hne : x ≠ y) :
    Parted (x ++ [mark]) (y ++ [mark]) := by
  intro u v heq
  simp only [List.append_assoc, List.singleton_append] at heq
  rcases List.append_eq_append_iff.mp heq with ⟨t, rfl, ht⟩ | ⟨t, rfl, ht⟩
  · cases t with
    | nil => exact hne (List.append_nil x).symm
    | cons a t =>
      obtain ⟨rfl, -⟩ := List.cons.inj ht
      exact hy (by simp)
  · cases t with
    | nil => exact hne (List.append_nil y)
    | cons a t =>
      obtain ⟨rfl, -⟩ := List.cons.inj ht
      exact hx (by simp)

/-! ### Texts of pieces -/

variable {f g : κ → List α}

theorem append_parted {x x' y y' : List α} (hx : x = x' ∨ Parted x x') (hy : y = y' ∨ Parted y y') :
    x ++ y = x' ++ y' ∨ Parted (x ++ y) (x' ++ y') := by
  rcases hx with rfl | hx
  · rcases hy with rfl | hy
    · exact .inl rfl
    · exact .inr (hy.append_left x)
  · exact .inr (hx.append y y')

theorem flatMap_eq_or_parted : ∀ {xs : List κ}, (∀ x ∈ xs, f x = g x ∨ Parted (f x) (g x)) →
    xs.flatMap f = xs.flatMap g ∨ Parted (xs.flatMap f) (xs.flatMap g)
  | [], _ => .inl rfl
  | x :: xs, h => by
    obtain ⟨hx, hxs⟩ := List.forall_mem_cons.mp h
    rw [List.flatMap_cons, List.flatMap_cons]
    exact append_parted hx (flatMap_eq_or_parted hxs)

/-- Texts are parted at the first piece that is. -/
theorem flatMap_parted : ∀ {xs : List κ}, (∀ x ∈ xs, f x = g x ∨ Parted (f x) (g x)) →
    (∃ x ∈ xs, Parted (f x) (g x)) → Parted (xs.flatMap f) (xs.flatMap g)
  | [], _, h => absurd h (by simp)
  | x :: xs, h, hparted => by
    obtain ⟨hx, hxs⟩ := List.forall_mem_cons.mp h
    rw [List.flatMap_cons, List.flatMap_cons]
    rcases hx with heq | hx
    · rw [heq]
      refine (flatMap_parted hxs ?_).append_left (g x)
      obtain ⟨y, hy, hay⟩ := hparted
      rcases List.mem_cons.mp hy with rfl | hy
      · exact absurd heq hay.ne
      · exact ⟨y, hy, hay⟩
    · exact hx.append _ _

/-- **A text has one list of keys**, where pieces are parted unless they have the same key. -/
theorem eq_of_flatMap_eq (hf : ∀ x, f x ≠ []) (hg : ∀ x, g x ≠ []) : ∀ {xs ys : List κ},
    (∀ x ∈ xs, ∀ y ∈ ys, x ≠ y → Parted (f x) (g y)) → (∀ x ∈ xs, f x = g x ∨ Parted (f x) (g x)) →
    xs.flatMap f = ys.flatMap g → ∀ x ∈ xs, f x = g x
  | [], _, _, _, _ => by simp
  | x :: xs, [], _, _, heq => by
    have hnil : f x = [] := (List.append_eq_nil_iff.mp heq).1
    exact absurd hnil (hf x)
  | x :: xs, y :: ys, hkeys, hsame, heq => by
    rw [List.flatMap_cons, List.flatMap_cons] at heq
    obtain ⟨hx, hxs⟩ := List.forall_mem_cons.mp hsame
    have hxy : x = y := by
      by_contra hne
      exact hkeys x List.mem_cons_self y List.mem_cons_self hne _ _ heq
    subst hxy
    rcases hx with hx | hx
    · rw [hx] at heq
      have hrest := eq_of_flatMap_eq hf hg
        (fun a ha b hb => hkeys a (List.mem_cons_of_mem x ha) b (List.mem_cons_of_mem x hb)) hxs
        (List.append_cancel_left heq)
      exact List.forall_mem_cons.mpr ⟨hx, hrest⟩
    · exact absurd heq (hx _ _)

theorem length_flatMap_le {xs : List κ} (h : ∀ x ∈ xs, (f x).length ≤ (g x).length) :
    (xs.flatMap f).length ≤ (xs.flatMap g).length := by
  rw [List.length_flatMap, List.length_flatMap]
  exact List.sum_le_sum h

/-- One piece that grows makes the text longer. -/
theorem length_flatMap_lt {xs : List κ} (h : ∀ x ∈ xs, (f x).length ≤ (g x).length)
    (hlt : ∃ x ∈ xs, (f x).length < (g x).length) : (xs.flatMap f).length < (xs.flatMap g).length := by
  rw [List.length_flatMap, List.length_flatMap]
  exact List.sum_lt_sum _ _ h hlt

/-- With more keys a text is not shorter. -/
theorem length_flatMap_subset {xs ys : List κ} (hxs : xs.Nodup) (h : xs ⊆ ys) :
    (xs.flatMap f).length ≤ (ys.flatMap f).length := by
  obtain ⟨zs, hperm, hsub⟩ := hxs.subperm h
  rw [List.length_flatMap, List.length_flatMap, ← (hperm.map fun a => (f a).length).sum_eq]
  exact (hsub.map _).sum_le_sum fun _ _ => Nat.zero_le _

end
end MqResiliency
