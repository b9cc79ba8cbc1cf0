/-
# The run loop

How a verb runs its steps (`orchestrator.py`): one after the other, each
attempted as often as its retry policy allows, and the run ends at the first
step that fails (`runSteps`). What a run shows goes to the renderer and, in
the same words, to the transcript; the timing of every step goes to the perf
sink. Times are exact rationals.
-/
import Mathlib.Algebra.Order.Field.Rat
import MqResiliency.Lib.Prog
import MqResiliency.Perf.Record

namespace MqResiliency
namespace Lab
namespace Run

open Py Perf

/-! ### The retry policy -/

/-- `RetryPolicy`, with what its `__post_init__` checks. -/
structure RetryPolicy : Type where
  attempts : ℤ
  baseDelay : ℚ
  backoff : ℚ
  maxDelay : ℚ
  attempts_pos : 1 ≤ attempts
  baseDelay_nonneg : 0 ≤ baseDelay
  backoff_nonneg : 0 ≤ backoff
  maxDelay_nonneg : 0 ≤ maxDelay

/-- What `__post_init__` refuses, with the values that its message names. -/
inductive PolicyError : Type where
  | attempts (got : ℤ)
  | delays (baseDelay backoff maxDelay : ℚ)
deriving DecidableEq

/-- `RetryPolicy(attempts, base_delay, backoff, max_delay)`. -/
def RetryPolicy.make (attempts : ℤ) (baseDelay backoff maxDelay : ℚ) : Except PolicyError RetryPolicy :=
  if ha : attempts < 1 then .error (.attempts attempts)
  else if hd : baseDelay < 0 ∨ backoff < 0 ∨ maxDelay < 0 then .error (.delays baseDelay backoff maxDelay)
  else .ok
    { attempts, baseDelay, backoff, maxDelay
      attempts_pos := not_lt.mp ha
      baseDelay_nonneg := not_lt.mp fun h => hd (.inl h)
      backoff_nonneg := not_lt.mp fun h => hd (.inr (.inl h))
      maxDelay_nonneg := not_lt.mp fun h => hd (.inr (.inr h)) }

/-- Every policy is one that the check accepts. -/
theorem RetryPolicy.make_self (p : RetryPolicy) : make p.attempts p.baseDelay p.backoff p.maxDelay = .ok p := by
  have hneg : ¬ (p.baseDelay < 0 ∨ p.backoff < 0 ∨ p.maxDelay < 0) := by
    simp only [not_or, not_lt]
    exact ⟨p.baseDelay_nonneg, p.backoff_nonneg, p.maxDelay_nonneg⟩
  unfold make
  rw [dif_neg (not_lt.mpr p.attempts_pos), dif_neg hneg]

/-- `delay_before(retry)`; the first retry is 1. -/
def RetryPolicy.delayBefore (p : RetryPolicy) (retry : ℕ) : ℚ :=
  min (p.baseDelay * p.backoff ^ (retry - 1)) p.maxDelay

/-! ### Steps, and what a run does -/

/-- `Command`. -/
structure Command : Type where
  argv : List Str
  cwd : Option Str := none
  env : Option (List (Str × Str)) := none
deriving DecidableEq

/-- `Command.display()`. -/
def Command.display (c : Command) : Str := (c.argv.intersperse [' ']).flatten

/-- `CommandStep`. -/
structure CommandStep : Type where
  label : Str
  command : Command
  retry : Option RetryPolicy := none
  phase : Str := []

/-- `StepFailedError`. -/
structure StepFailed : Type where
  label : Str
  exitCode : ℤ
  elapsed : ℚ
  retries : ℕ
deriving DecidableEq

/-- What the renderer is told, and the transcript in the same words. -/
inductive Told : Type where
  | command (display : Str)
  | output (line : Str)
  | retrying (label : Str) (attempt : ℕ) (attempts exitCode : ℤ) (delay : ℚ)
  | ok (label : Str) (elapsed : ℚ)
  | failed (label : Str) (exitCode : ℤ)
  | summary (completed total : ℕ) (elapsed : ℚ)

/-- What running a command gives: the lines it prints, and its exit code. -/
structure Ran : Type where
  output : List Str
  exitCode : ℤ

/-- The collaborators of the run loop: the clock, the runner, the sleep, the
renderer, the transcript, the perf sink and the pauser. -/
inductive Cmd : Type where
  | now
  | run (c : Command)
  | sleep (seconds : ℚ)
  | render (t : Told)
  | write (t : Told)
  | perf (t : StepTiming)
  | wait

abbrev Ans : Cmd → Type
  | .now => ℚ
  | .run _ => Ran
  | _ => Unit

abbrev R (α : Type) : Type := Prog Cmd Ans StepFailed α

/-- `now()`. -/
def now : R ℚ := Prog.ask Cmd.now

/-- `runner.run(command, sink)`, and the lines that it hands to the sink. -/
def runner (c : Command) : R Ran := Prog.ask (Cmd.run c)

/-- `sleep(seconds)`. -/
def sleep (seconds : ℚ) : R Unit := Prog.ask (Cmd.sleep seconds)

/-- `perf.step(...)`. -/
def perfStep (t : StepTiming) : R Unit := Prog.ask (Cmd.perf t)

/-- `pauser.wait()`. -/
def wait : R Unit := Prog.ask Cmd.wait

/-- The renderer and the transcript are told the same. -/
def tell (t : Told) : R Unit := do
  Prog.ask (Cmd.render t)
  Prog.ask (Cmd.write t)

/-- `sink`, of one line after the other. -/
def sink : List Str → R Unit
  | [] => pure ()
  | line :: lines => do
    tell (.output line)
    sink lines

/-! ### The loop -/

/-- How often a step may be attempted. -/
def CommandStep.allowed (step : CommandStep) : ℕ := step.retry.elim 1 fun p => p.attempts.toNat

/-- The end of `_run_step_with_retry` that fails loud. -/
def stepFailed (step : CommandStep) (exitCode : ℤ) (elapsed : ℚ) (retries : ℕ) : R (ℚ × ℕ) := do
  tell (.failed step.label exitCode)
  throw ⟨step.label, exitCode, elapsed, retries⟩

/-- `_run_step_with_retry`, when so many attempts were made. -/
def runStepWithRetry (step : CommandStep) (made : ℕ) : R (ℚ × ℕ) := do
  let attempt := made + 1
  let started ← now
  let ran ← runner step.command
  sink ran.output
  let ended ← now
  let elapsed := ended - started
  if ran.exitCode = 0 then return (elapsed, attempt - 1)
  match hretry : step.retry with
  | none => stepFailed step ran.exitCode elapsed (attempt - 1)
  | some policy =>
    if hattempts : policy.attempts ≤ attempt then stepFailed step ran.exitCode elapsed (attempt - 1)
    else do
      let delay := policy.delayBefore attempt
      tell (.retrying step.label attempt policy.attempts ran.exitCode delay)
      sleep delay
      runStepWithRetry step attempt
termination_by step.allowed - made
decreasing_by
  simp only [CommandStep.allowed, hretry, Option.elim_some]
  omega

/-- The steps from here on; `index`, `completed` and `elapsedTotal` are the
loop's, when the steps before have run. -/
def runStepsFrom (total : ℕ) (stepMode : Bool) (index completed : ℕ) (elapsedTotal : ℚ) : List CommandStep → R Unit
  | [] => tell (.summary completed total elapsedTotal)
  | step :: steps => do
    tell (.command step.command.display)
    let (elapsed, retries) ← tryCatch (runStepWithRetry step 0) fun e => do
      perfStep ⟨step.phase, step.label, e.elapsed, e.retries, false⟩
      throw e
    tell (.ok step.label elapsed)
    perfStep ⟨step.phase, step.label, elapsed, retries, true⟩
    if stepMode ∧ index < total then wait
    runStepsFrom total stepMode (index + 1) (completed + 1) (elapsedTotal + elapsed) steps

/-- `run_steps(steps, step_mode=...)`. -/
def runSteps (steps : List CommandStep) (stepMode : Bool) : R Unit :=
  runStepsFrom steps.length stepMode 1 0 0 steps

end Run
end Lab
end MqResiliency
