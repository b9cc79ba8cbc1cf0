/-
# Texts in sections

A text whose lines stand under titles (`Sections.read`). What is written as
titles, each with its lines below it, is read back as it was (`read_write`); the
lines of a text are those that were written (`splitOn_lines`).
-/
import MqResiliency.Lib.Text

namespace MqResiliency
namespace Sections

variable {α τ : Type} (title : α → Option τ)

/-- The lines that no title stands above, and the sections. -/
def read : List α → List α × List (τ × List α)
  | [] => ([], [])
  | line :: lines =>
    match title line with
    | some t => ([], (t, (read lines).1) :: (read lines).2)
    | none => (line :: (read lines).1, (read lines).2)

/-- The sections as lines. -/
def write (header : τ → α) (ss : List (τ × List α)) : List α := ss.flatMap fun s => header s.1 :: s.2

theorem read_append : ∀ {below : List α} (lines : List α), (∀ line ∈ below, title line = none) →
    read title (below ++ lines) = (below ++ (read title lines).1, (read title lines).2)
  | [], _, _ => rfl
  | line :: below, lines, h => by
    have hline : title line = none := h line List.mem_cons_self
    have ih := read_append lines fun l hl => h l (List.mem_cons_of_mem line hl)
    rw [List.cons_append, read, hline, ih]
    rfl

/-- **What is written is read back**, where the titles are read as such and no
line below one is. -/
theorem read_write {header : τ → α} : ∀ {ss : List (τ × List α)},
    (∀ s ∈ ss, title (header s.1) = some s.1 ∧ ∀ line ∈ s.2, title line = none) →
    read title (write header ss) = ([], ss)
  | [], _ => rfl
  | s :: ss, h => by
    obtain ⟨htitle, hlines⟩ := h s List.mem_cons_self
    have ih := read_write fun s' hs' => h s' (List.mem_cons_of_mem s hs')
    have hwrite : write header (s :: ss) = header s.1 :: (s.2 ++ write header ss) := List.flatMap_cons
    rw [hwrite, read, htitle, read_append title _ hlines, ih, List.append_nil]

theorem intercalate_concat_nil (sep : α) : ∀ {lines : List (List α)}, lines ≠ [] →
    [sep].intercalate (lines ++ [[]]) = [sep].intercalate lines ++ [sep]
  | [], h => absurd rfl h
  | [line], _ => by simp [List.intercalate_cons_cons]
  | line :: line' :: lines, _ => by
    have ih := intercalate_concat_nil sep (List.cons_ne_nil line' lines)
    rw [List.cons_append, List.cons_append, List.intercalate_cons_cons, ← List.cons_append, ih,
      List.intercalate_cons_cons, List.append_assoc, List.append_assoc, List.append_assoc]

/-- The lines of a text, each with its end, and the empty one after the last. -/
theorem splitOn_lines {lines : List Py.Str} (hne : lines ≠ []) (h : ∀ line ∈ lines, '\n' ∉ line) :
    (['\n'].intercalate lines ++ ['\n']).splitOn '\n' = lines ++ [[]] := by
  rw [← intercalate_concat_nil _ hne, List.splitOn_intercalate]
  · intro line hline
    rcases List.mem_append.mp hline with hline | hline
    · exact h line hline
    · rw [List.mem_singleton.mp hline]
      simp
  · simp

end Sections
end MqResiliency
