/-
# The peak of a running sum

Steps up and down, taken in order from a start (`peakFrom`). The peak is no
lower than the sum of any prefix (`sum_le_peakFrom`), and is where it began or
the sum of a prefix that ends in a step up (`peakFrom_cases`). Sorting decides
which prefixes there are: what lies below a cut stands before the rest
(`filter_append_of_pairwise`).
-/
import Mathlib.Algebra.BigOperators.Group.List.Basic
import Mathlib.Algebra.Order.Ring.Int

namespace MqResiliency
namespace Sweep

/-- The highest of `peak` and the sums that are reached from `sum`. -/
def peakFrom : ℤ → ℤ → List ℤ → ℤ
  | _, peak, [] => peak
  | sum, peak, d :: ds => peakFrom (sum + d) (max peak (sum + d)) ds

theorem le_peakFrom : ∀ (ds : List ℤ) (sum peak : ℤ), peak ≤ peakFrom sum peak ds
  | [], _, _ => le_refl _
  | d :: ds, sum, peak => (le_max_left peak (sum + d)).trans (le_peakFrom ds _ _)

/-- The peak is no lower than what any prefix comes to. -/
theorem sum_le_peakFrom : ∀ (ds₁ ds₂ : List ℤ) {sum peak : ℤ}, sum ≤ peak →
    sum + ds₁.sum ≤ peakFrom sum peak (ds₁ ++ ds₂)
  | [], ds₂, sum, peak, h => by
    have hpeak := le_peakFrom ds₂ sum peak
    simp only [List.sum_nil, List.nil_append]
    omega
  | d :: ds₁, ds₂, sum, peak, _ => by
    have ih := sum_le_peakFrom ds₁ ds₂ (le_max_right peak (sum + d))
    rw [List.sum_cons, List.cons_append, peakFrom, ← add_assoc]
    exact ih

/-- The peak is where it began, or a prefix that ends in a step up comes to it. -/
theorem peakFrom_cases : ∀ (ds : List ℤ) {sum peak : ℤ}, sum ≤ peak → peakFrom sum peak ds = peak ∨
    ∃ ds₁ d ds₂, ds = ds₁ ++ d :: ds₂ ∧ 0 < d ∧ peakFrom sum peak ds = sum + ds₁.sum + d
  | [], _, _, _ => .inl rfl
  | d :: ds, sum, peak, h => by
    rw [peakFrom]
    rcases peakFrom_cases ds (le_max_right peak (sum + d)) with heq | ⟨ds₁, d', ds₂, hds, hd', heq⟩
    · by_cases hup : sum + d ≤ peak
      · rw [max_eq_left hup] at heq ⊢
        exact .inl heq
      · refine .inr ⟨[], d, ds, rfl, by omega, ?_⟩
        rw [heq, List.sum_nil]
        omega
    · refine .inr ⟨d :: ds₁, d', ds₂, by rw [hds]; rfl, hd', ?_⟩
      rw [heq, List.sum_cons]
      omega

/-- What is below a cut stands first in a sorted list. -/
theorem filter_append_of_pairwise {α : Type} {le : α → α → Prop} {p : α → Bool} : ∀ {l : List α},
    l.Pairwise le → (∀ x ∈ l, ∀ y ∈ l, le x y → p y → p x) → l = l.filter p ++ l.filter fun x => !p x
  | [], _, _ => rfl
  | a :: l, hl, hp => by
    obtain ⟨ha, hl⟩ := List.pairwise_cons.mp hl
    have ih := filter_append_of_pairwise hl fun x hx y hy =>
      hp x (List.mem_cons_of_mem a hx) y (List.mem_cons_of_mem a hy)
    by_cases hpa : p a
    · rw [List.filter_cons_of_pos hpa, List.filter_cons_of_neg (by simp [hpa]), List.cons_append, ← ih]
    · have hnone : l.filter p = [] := List.filter_eq_nil_iff.mpr fun y hy hpy =>
        hpa (hp a List.mem_cons_self y (List.mem_cons_of_mem a hy) (ha y hy) hpy)
      rw [List.filter_cons_of_neg hpa, hnone, List.filter_cons_of_pos (by simp [hpa])]
      rw [hnone] at ih
      exact congrArg (a :: ·) ih

end Sweep
end MqResiliency
