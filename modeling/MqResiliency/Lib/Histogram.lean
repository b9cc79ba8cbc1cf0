/-
# Histograms

The counts of a cumulative histogram, one for each edge: an observation adds
one wherever it is within the edge (`observe`). After all observations each
count is how many are within its edge (`foldl_observe`), whatever an
observation and an edge are. Where an edge lets in all that the one before it
does, the counts ascend (`pairwise_within`), and none is above the number of
observations (`le_length_of_mem_within`).

A text of metrics is read as its samples (`samples`): a line that is no comment
has a series, a blank and a value.
-/
import Mathlib.Tactic.Ring
import MqResiliency.Lib.Lines

namespace MqResiliency

/-! ### Counts -/

namespace Histogram

variable {α ε : Type} (le : α → ε → Bool)

/-- One more wherever the observation is within the edge. -/
def observe (edges : List ε) (hits : List ℤ) (a : α) : List ℤ :=
  List.zipWith (fun edge n => if le a edge then n + 1 else n) edges hits

/-- How many observations are within each edge. -/
def within (edges : List ε) (obs : List α) : List ℤ := edges.map fun edge => (obs.countP fun a => le a edge : ℕ)

theorem length_within (edges : List ε) (obs : List α) : (within le edges obs).length = edges.length :=
  List.length_map _

theorem within_nil (edges : List ε) : within le edges [] = List.replicate edges.length 0 := by
  rw [within, ← List.map_const']
  rfl

theorem observe_within (edges : List ε) (obs : List α) (a : α) :
    observe le edges (within le edges obs) a = within le edges (obs ++ [a]) := by
  unfold observe within
  rw [List.zipWith_map_right, List.zipWith_self]
  refine List.map_congr_left fun edge _ => ?_
  rw [List.countP_append, List.countP_singleton]
  by_cases h : le a edge
  · rw [if_pos h, if_pos h]
    push_cast
    ring
  · rw [if_neg h, if_neg h, Nat.add_zero]

/-- **After all observations the counts are how many are within each edge.** -/
theorem foldl_observe (edges : List ε) (obs : List α) :
    obs.foldl (observe le edges) (List.replicate edges.length 0) = within le edges obs := by
  induction obs using List.reverseRecOn with
  | nil => exact (within_nil le edges).symm
  | append_singleton obs a ih => rw [List.foldl_append, ih, List.foldl_cons, List.foldl_nil, observe_within]

theorem pairwise_within {edges : List ε} (h : edges.Pairwise fun e e' => ∀ a, le a e → le a e') (obs : List α) :
    (within le edges obs).Pairwise (· ≤ ·) := by
  unfold within
  rw [List.pairwise_map]
  refine h.imp fun {e e'} hstep => ?_
  exact_mod_cast List.countP_mono_left fun a _ => hstep a

theorem le_length_of_mem_within {edges : List ε} {obs : List α} {n : ℤ} (h : n ∈ within le edges obs) :
    n ≤ obs.length := by
  obtain ⟨edge, -, rfl⟩ := List.mem_map.mp h
  exact_mod_cast List.countP_le_length

end Histogram

/-! ### Samples -/

namespace Py

/-- The series of a line, and its value. -/
def sampleOf (line : Str) : Str × Str := (line.takeWhile (· ≠ ' '), (line.dropWhile (· ≠ ' ')).drop 1)

def isComment (line : Str) : Bool := line.head? = some '#'

/-- The samples of a text of metrics. -/
def samples (text : Str) : List (Str × Str) := ((splitlines text).filter fun line => !isComment line).map sampleOf

theorem sampleOf_append {series : Str} (h : ' ' ∉ series) (value : Str) :
    sampleOf (series ++ ' ' :: value) = (series, value) := by
  have hall : ∀ c ∈ series, decide (c ≠ ' ') := fun c hc => decide_eq_true fun he => h (he ▸ hc)
  unfold sampleOf
  rw [List.takeWhile_append_of_pos hall, List.dropWhile_append_of_pos hall]
  simp

/-- Lines with an end each. -/
theorem intercalate_append_eq_flatMap : ∀ {lines : List Str}, lines ≠ [] →
    ['\n'].intercalate lines ++ ['\n'] = lines.flatMap fun line => line ++ ['\n']
  | [], h => absurd rfl h
  | [line], _ => by simp [List.intercalate]
  | line :: line' :: lines, _ => by
    have ih := intercalate_append_eq_flatMap (List.cons_ne_nil line' lines)
    rw [List.flatMap_cons, ← ih]
    simp [List.intercalate, List.intersperse]

theorem samples_intercalate {lines : List Str} (hne : lines ≠ [])
    (h : ∀ line ∈ lines, ∀ c ∈ line, isLineBreak c = false) :
    samples (['\n'].intercalate lines ++ ['\n']) = (lines.filter fun line => !isComment line).map sampleOf := by
  rw [samples, intercalate_append_eq_flatMap hne, splitlines_flatMap h]

end Py
end MqResiliency
