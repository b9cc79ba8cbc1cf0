/-
# Tasks in a transcript

`perfrun.py`: what `ansible_task_outcomes` reads off the output of a playbook
under `profile_tasks`. A banner names a task; the timing line after it starts
the task, and the next timing line says how long it took. Seconds are exact
rationals.
-/
import Mathlib.Algebra.Field.Rat
import MqResiliency.Lib.Dict
import MqResiliency.Lib.Regex

namespace MqResiliency
namespace Perf

open Py
open Re (isSpace)

/-! ### Lines -/

/-- What stands before `\*+\s*$`. -/
def beforeStars (line : Str) : Option Str :=
  let text := line.rdropWhile isSpace
  let body := text.rdropWhile (· = '*')
  if body = text then none else some body

/-- `_TASK_BANNER`: the name of the banner. -/
def taskBanner (line : Str) : Option Str :=
  (beforeStars line).bind fun body =>
    let name := (body.drop 6).dropLast.dropLast
    if body = "TASK [".toList ++ name ++ "] ".toList ∧ name ≠ [] ∧ '\n' ∉ name then some name else none

/-- The groups of a duration, as texts. -/
structure Clock : Type where
  h : Str
  m : Str
  s : Str
  ms : Str
deriving DecidableEq

/-- `\d`. -/
def isDecimal (c : Char) : Bool := (decimal c).isSome

/-- `n` digits. -/
def digitsOf? (n : ℕ) (s : Str) : Option (Str × Str) :=
  if (s.take n).length = n ∧ (s.take n).all isDecimal then some (s.take n, s.drop n) else none

/-- The text after a character. -/
def afterChar (c : Char) : Str → Option Str
  | [] => none
  | d :: s => if d = c then some s else none

/-- `\d+:\d{2}:\d{2}\.\d{3}`, and what stands after it. -/
def clock (s : Str) : Option (Clock × Str) := do
  let (h, s) := (s.takeWhile isDecimal, s.dropWhile isDecimal)
  guard (h ≠ [])
  let (m, s) ← digitsOf? 2 (← afterChar ':' s)
  let (sec, s) ← digitsOf? 2 (← afterChar ':' s)
  let (ms, s) ← digitsOf? 3 (← afterChar '.' s)
  return (⟨h, m, sec, ms⟩, s)

/-- What stands after the last `(`. -/
def afterParen (s : Str) : Option Str := if '(' ∈ s then some (s.rtakeWhile (· ≠ '(')) else none

/-- `_TASK_TIMING`: the duration of the task before. -/
def taskTiming (line : Str) : Option Clock := do
  let (prev, s) ← clock (← afterParen (← beforeStars line))
  let s ← afterChar ')' s
  guard (s.takeWhile isSpace ≠ [])
  let (_, s) ← clock (s.dropWhile isSpace)
  guard (s = [' '])
  return prev

/-- `_timing_seconds`; `none` where `int` raises. -/
def timingSeconds (c : Clock) : Option ℚ := do
  let h ← int c.h
  let m ← int c.m
  let s ← int c.s
  let ms ← int c.ms
  return h * 3600 + m * 60 + s + ms / 1000

/-- `line.startswith(("ok: [", "changed: ["))`. -/
def isOk (line : Str) : Bool := "ok: [".toList.isPrefixOf line || "changed: [".toList.isPrefixOf line

/-- `line.startswith("fatal: [")`. -/
def isFatal (line : Str) : Bool := "fatal: [".toList.isPrefixOf line

/-! ### The scan -/

/-- `TaskOutcome`. -/
structure TaskOutcome : Type where
  seconds : Option ℚ := none
  ok : Bool := false
  failed : Bool := false
deriving DecidableEq

/-- What the scan keeps. -/
structure Scan : Type where
  out : Dict Str TaskOutcome
  banner : Option Str
  active : Option Str

/-- The entries when the running task ends. -/
def Scan.finish (s : Scan) (t : Clock) : Option (Dict Str TaskOutcome) :=
  match s.active with
  | some a => (timingSeconds t).map fun x => s.out.modify a ({ · with seconds := some x })
  | none => some s.out

section
variable (names : List Str)

/-- A timing line: the running task ends, and the one of the banner starts. -/
def Scan.timing (s : Scan) (t : Clock) : Option Scan :=
  (s.finish t).map fun out =>
    match s.banner with
    | some b => if b ∈ names ∧ b ∉ out.keys then ⟨out.set b {}, none, some b⟩ else ⟨out, none, none⟩
    | none => ⟨out, none, none⟩

/-- A line that is neither a banner nor a timing line. -/
def Scan.result (s : Scan) (line : Str) : Scan :=
  match s.active with
  | some a =>
    if isOk line then { s with out := s.out.modify a ({ · with ok := true }) }
    else if isFatal line then { s with out := s.out.modify a ({ · with failed := true }) }
    else s
  | none => s

/-- One line. -/
def Scan.line (s : Scan) (line : Str) : Option Scan :=
  match taskBanner line with
  | some name => some { s with banner := some name }
  | none =>
    match taskTiming line with
    | some t => s.timing names t
    | none => some (s.result line)

/-- `ansible_task_outcomes`; `none` where it raises. -/
def ansibleTaskOutcomes (lines : List Str) : Option (Dict Str TaskOutcome) :=
  (lines.foldlM (Scan.line names) ⟨.empty, none, none⟩).map (·.out)

end

end Perf
end MqResiliency
