/-
# The lines of a file

A text file as Python opens it ends its lines in `\n` only (`newlines`). Its
lines are then what iterating over the file gives, each with its end
(`fileLines`), or what `str.splitlines` gives of its text, which ends a line
at other characters too. Without these the two are the same lines
(`fileLines_splitlines`); with one, `splitlines` has only the start of a line
of the file (`exists_cut_line`).
-/
import MqResiliency.Lib.Regex

namespace MqResiliency
namespace Py

/-- The text of a file that goes on with `s`; after a `\r` (`cr`) a `\n`
belongs to the same line end. -/
def newlinesFrom : (cr : Bool) → Str → Str
  | _, [] => []
  | cr, c :: s =>
    if cr ∧ c = '\n' then newlinesFrom false s
    else (if c = '\r' then '\n' else c) :: newlinesFrom (c = '\r') s

/-- The text of a file as `open` reads it. -/
def newlines (s : Str) : Str := newlinesFrom false s

/-- The lines of a text that goes on with `s` after `cur`. -/
def fileLinesFrom : (cur : Str) → Str → List Str
  | cur, [] => if cur = [] then [] else [cur]
  | cur, c :: s => if c = '\n' then (cur ++ [c]) :: fileLinesFrom [] s else fileLinesFrom (cur ++ [c]) s

/-- `for line in fh`. -/
def fileLines (s : Str) : List Str := fileLinesFrom [] s

/-- Only what is blank strips to nothing. -/
theorem trim_eq_nil {s : Str} : trim s = [] ↔ ∀ c ∈ s, Re.isSpace c := by
  unfold trim
  rw [List.rdropWhile_eq_nil_iff]
  constructor
  · intro h
    refine List.dropWhile_eq_nil_iff.mp ?_
    by_contra hne
    have hhead := List.head_dropWhile_not Re.isSpace hne
    rw [h _ (List.head_mem hne)] at hhead
    cases hhead
  · intro h c hc
    exact h c ((List.dropWhile_sublist Re.isSpace).mem hc)

/-! ### Line ends -/

theorem cr_not_mem_newlinesFrom : ∀ (s : Str) (cr : Bool), '\r' ∉ newlinesFrom cr s
  | [], _ => List.not_mem_nil
  | c :: s, cr => by
    have ih := cr_not_mem_newlinesFrom s
    unfold newlinesFrom
    split
    · exact ih false
    · have hhead : '\r' ≠ if c = '\r' then '\n' else c := by
        split
        · decide
        · rename_i hc
          exact fun h => hc h.symm
      rw [List.mem_cons]
      exact fun h => h.elim hhead (ih _)

theorem cr_not_mem_newlines (s : Str) : '\r' ∉ newlines s := cr_not_mem_newlinesFrom s false

theorem newlines_eq_self : ∀ {s : Str}, '\r' ∉ s → newlines s = s
  | [], _ => rfl
  | c :: s, h => by
    obtain ⟨hc, hs⟩ : '\r' ≠ c ∧ '\r' ∉ s := by simpa using h
    have ih : newlinesFrom false s = s := newlines_eq_self hs
    have hne : ¬ c = '\r' := fun h => hc h.symm
    show newlinesFrom false (c :: s) = c :: s
    unfold newlinesFrom
    rw [if_neg (by simp), if_neg hne, decide_eq_false hne, ih]

/-! ### How many there are -/

theorem length_linesFrom : ∀ (s : Str) (cr : Bool) (cur : Str),
    (linesFrom cr cur s).length ≤ s.length + if cur = [] then 0 else 1
  | [], cr, cur => by
    rw [linesFrom]
    split <;> simp
  | c :: s, cr, cur => by
    rw [linesFrom]
    split
    · have ih := length_linesFrom s false cur
      rw [List.length_cons]
      omega
    · split
      · have ih := length_linesFrom s (c = '\r') []
        rw [if_pos rfl] at ih
        simp only [List.length_cons]
        omega
      · have ih := length_linesFrom s false (cur ++ [c])
        rw [if_neg (by simp)] at ih
        rw [List.length_cons]
        omega

/-- There are no more lines than characters. -/
theorem length_splitlines (s : Str) : (splitlines s).length ≤ s.length := length_linesFrom s false []

/-! ### Lines that were written -/

theorem linesFrom_append {line : Str} (h : ∀ c ∈ line, isLineBreak c = false) : ∀ (cur rest : Str),
    linesFrom false cur (line ++ '\n' :: rest) = (cur ++ line) :: splitlines rest := by
  induction line with
  | nil =>
    intro cur rest
    rw [List.append_nil]
    rfl
  | cons c line ih =>
    intro cur rest
    have hc := h c List.mem_cons_self
    have ih := ih (fun d hd => h d (List.mem_cons_of_mem c hd)) (cur ++ [c]) rest
    rw [List.cons_append, linesFrom, if_neg (by simp), if_neg (by simp [hc]), ih, List.append_assoc]
    rfl

/-- Lines that were written, each with its end. -/
theorem splitlines_flatMap : ∀ {lines : List Str}, (∀ line ∈ lines, ∀ c ∈ line, isLineBreak c = false) →
    splitlines (lines.flatMap fun line => line ++ ['\n']) = lines
  | [], _ => rfl
  | line :: lines, h => by
    have ih := splitlines_flatMap fun line' hline' => h line' (List.mem_cons_of_mem line hline')
    have hhead := linesFrom_append (h line List.mem_cons_self) [] (lines.flatMap fun line => line ++ ['\n'])
    rw [List.flatMap_cons, List.append_assoc, splitlines, List.singleton_append, hhead, ih]
    rfl

/-! ### The two kinds of lines -/

/-- A line of the file, and what `splitlines` has of it: all but its end. -/
def SameLine (fileLine line : Str) : Prop := fileLine = line ∨ fileLine = line ++ ['\n']

theorem fileLinesFrom_linesFrom : ∀ {s : Str} (cur : Str), (∀ c ∈ s, isLineBreak c → c = '\n') →
    List.Forall₂ SameLine (fileLinesFrom cur s) (linesFrom false cur s)
  | [], cur, _ => by
    unfold fileLinesFrom linesFrom
    split
    · exact .nil
    · exact .cons (.inl rfl) .nil
  | c :: s, cur, h => by
    have hs : ∀ d ∈ s, isLineBreak d → d = '\n' := fun d hd => h d (List.mem_cons_of_mem c hd)
    unfold fileLinesFrom linesFrom
    rw [if_neg (by simp : ¬ (false = true ∧ c = '\n'))]
    by_cases hc : c = '\n'
    · have hbreak : isLineBreak c := hc ▸ rfl
      have hcr : decide (c = '\r') = false := hc ▸ rfl
      rw [if_pos hc, if_pos hbreak, hcr, hc]
      exact .cons (.inr rfl) (fileLinesFrom_linesFrom [] hs)
    · have hno : ¬ isLineBreak c := fun hb => hc (h c List.mem_cons_self hb)
      rw [if_neg hc, if_neg hno]
      exact fileLinesFrom_linesFrom (cur ++ [c]) hs

/-- **Where only `\n` ends a line, the lines are the same.** -/
theorem fileLines_splitlines {s : Str} (h : ∀ c ∈ s, isLineBreak c → c = '\n') :
    List.Forall₂ SameLine (fileLines s) (splitlines s) := fileLinesFrom_linesFrom [] h

/-- What is read of a line already starts it. -/
theorem exists_fileLine_append : ∀ (s cur : Str), cur ≠ [] → ∃ b, cur ++ b ∈ fileLinesFrom cur s
  | [], cur, h => ⟨[], by simp [fileLinesFrom, h]⟩
  | c :: s, cur, h => by
    by_cases hc : c = '\n'
    · exact ⟨[c], by simp [fileLinesFrom, hc]⟩
    · obtain ⟨b, hb⟩ := exists_fileLine_append s (cur ++ [c]) (by simp)
      refine ⟨c :: b, ?_⟩
      rw [fileLinesFrom, if_neg hc]
      simpa using hb

theorem exists_cut_lineFrom : ∀ {s : Str} (cur : Str), '\r' ∉ s → (∃ c ∈ s, isLineBreak c ∧ c ≠ '\n') →
    ∃ a c b, a ∈ linesFrom false cur s ∧ a ++ c :: b ∈ fileLinesFrom cur s ∧ isLineBreak c ∧ c ≠ '\n' ∧ c ≠ '\r'
  | [], _, _, h => by
    obtain ⟨c, hc, _⟩ := h
    cases hc
  | d :: s, cur, hcr, h => by
    obtain ⟨hd, hs⟩ : '\r' ≠ d ∧ '\r' ∉ s := by simpa using hcr
    have hrest : ¬ (isLineBreak d ∧ d ≠ '\n') → ∃ c ∈ s, isLineBreak c ∧ c ≠ '\n' := by
      intro hno
      obtain ⟨c, hc, hbreak⟩ := h
      rcases List.mem_cons.mp hc with rfl | hc
      · exact absurd hbreak hno
      · exact ⟨c, hc, hbreak⟩
    have hcr' : decide (d = '\r') = false := decide_eq_false fun h => hd h.symm
    unfold linesFrom fileLinesFrom
    rw [if_neg (by simp : ¬ (false = true ∧ d = '\n')), hcr']
    by_cases hn : d = '\n'
    · have hbreak : isLineBreak d := hn ▸ rfl
      obtain ⟨a, c, b, ha, hb, hc⟩ := exists_cut_lineFrom [] hs (hrest fun h => h.2 hn)
      rw [if_pos hbreak, if_pos hn]
      exact ⟨a, c, b, List.mem_cons_of_mem _ ha, List.mem_cons_of_mem _ hb, hc⟩
    · by_cases hbreak : isLineBreak d
      · -- the first such character: the line so far is a line to `splitlines`
        obtain ⟨b, hb⟩ := exists_fileLine_append s (cur ++ [d]) (by simp)
        rw [if_pos hbreak, if_neg hn]
        refine ⟨cur, d, b, List.mem_cons_self, ?_, hbreak, hn, fun h => hd h.symm⟩
        simpa using hb
      · obtain ⟨a, c, b, ha, hb, hc⟩ := exists_cut_lineFrom (cur ++ [d]) hs (hrest fun h => hbreak h.1)
        rw [if_neg hbreak, if_neg hn]
        exact ⟨a, c, b, ha, hb, hc⟩

/-- **Another line break cuts a line of the file**, and `splitlines` has its start. -/
theorem exists_cut_line {s : Str} (hcr : '\r' ∉ s) (h : ∃ c ∈ s, isLineBreak c ∧ c ≠ '\n') :
    ∃ a c b, a ∈ splitlines s ∧ a ++ c :: b ∈ fileLines s ∧ isLineBreak c ∧ c ≠ '\n' ∧ c ≠ '\r' :=
  exists_cut_lineFrom [] hcr h

end Py
end MqResiliency
