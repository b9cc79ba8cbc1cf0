/-
# The wrapper of the event collector

The loop of `run.sh`, that runs `amqsevt` again whenever it exits (`turn`). A
lap of the loop has the readings of the clock that the wrapper makes in it
(`Lap`), and a run of the wrapper is determined by its laps (`after`). Shell
arithmetic is on 64 bits.
-/
import Mathlib.Algebra.Order.Ring.Int
import MqResiliency.Lib.Conv
import MqResiliency.Lib.Text

namespace MqResiliency
namespace EventWrapper

open Py

/-- One lap: the status and `stderr` of `amqsevt`, and what `date +%s` gives
when the wrapper reads it before `amqsevt` starts, when it has exited, for the
deadline of a new burst, and for the check against the deadline. -/
structure Lap : Type where
  rc : ℕ
  stderr : Str
  start : ℤ
  ended : ℤ
  mark : ℤ
  check : ℤ
  start_nonneg : 0 ≤ start
  start_le : start ≤ ended
  ended_le : ended ≤ mark
  mark_le : mark ≤ check
  check_lt : check < 2 ^ 63

/-- The laps one after the other. -/
structure Laps : Type where
  lap : ℕ → Lap
  later : ∀ k, (lap k).check ≤ (lap (k + 1)).start

/-- The values that the template puts in. -/
structure Settings : Type where
  sleep : ℕ
  openRetry : ℤ
  openRetry_ge : -2 ^ 63 ≤ openRetry
  openRetry_lt : openRetry < 2 ^ 63

/-- `HEALTHY_RUN`. -/
def healthyRun : ℤ := 60

/-- A sum of `$(( ... ))`. -/
def wrap64 (n : ℤ) : ℤ := n.bmod (2 ^ 64)

/-- `tr -s ' '`. -/
def squeeze : Str → Str
  | ' ' :: ' ' :: s => squeeze (' ' :: s)
  | c :: s => c :: squeeze s
  | [] => []

/-- `reason`: the first line of `stderr` that names a reason. -/
def reason (stderr : Str) : Str :=
  squeeze (((lines stderr).find? fun line =>
    let line := line.map Char.toLower
    contains line "reason code".toList || contains line "mqrc_".toList).getD [])

/-- `${reason:+ [${reason}]}`. -/
def shownReason (reason : Str) : Str := if reason = [] then [] else " [".toList ++ reason ++ [']']

/-- The wrapper is in its loop, with `fail_deadline`, or has exited. -/
inductive State : Type where
  | looping (failDeadline : ℤ)
  | exited (status : ℕ)
deriving DecidableEq

/-- A turn of the loop: what the wrapper says, and where it is then. -/
def turn (v : Settings) (failDeadline : ℤ) (lap : Lap) : Str × State :=
  let rc := Conv.textOf lap.rc
  let ran := wrap64 (lap.ended - lap.start)
  let why := shownReason (reason lap.stderr)
  if healthyRun ≤ ran then
    (["amqsevt exited rc=".toList, rc, " after ".toList, Conv.textOf ran, ['s'], why, "; restarting in ".toList,
      Conv.textOf v.sleep, ['s']].flatten, .looping 0)
  else
    let failDeadline := if failDeadline = 0 then wrap64 (lap.mark + v.openRetry) else failDeadline
    if v.openRetry ≠ 0 ∧ failDeadline ≤ lap.check then
      (["amqsevt kept failing fast (rc=".toList, rc, [')'], why, " for >".toList, Conv.textOf v.openRetry,
        "s — giving up; SERVICE goes DOWN (loud)".toList].flatten, .exited lap.rc)
    else
      (["amqsevt exited rc=".toList, rc, " after ".toList, Conv.textOf ran, "s (fast)".toList, why, "; restarting in ".toList,
        Conv.textOf v.sleep, ['s']].flatten, .looping failDeadline)

/-- The wrapper after so many laps. -/
def after (v : Settings) (laps : Laps) : ℕ → State
  | 0 => .looping 0
  | k + 1 =>
    match after v laps k with
    | .looping failDeadline => (turn v failDeadline (laps.lap k)).2
    | .exited status => .exited status

end EventWrapper
end MqResiliency
