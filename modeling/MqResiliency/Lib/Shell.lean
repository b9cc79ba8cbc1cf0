/-
# Exit statuses of a shell

What the commands of a `bash` script leave as their exit status, and where
`set -e` ends the script. A command is a program that returns its status; a
`return`, a `continue` and an exit leave it by a `Jump`.

An `if` whose condition fails and that has no `else` leaves 0 (`ifThen`): the
status of the condition is gone.
-/
import MqResiliency.Lib.Prog
import MqResiliency.Lib.Text

namespace MqResiliency
namespace Shell

/-- How a command may leave what stands around it, with a status. -/
inductive Jump : Type where
  | exit (status : ℕ)
  | ret (status : ℕ)
  | next
deriving DecidableEq

/-- A piece of a script. -/
abbrev Sh (C : Type) (A : C → Type) (α : Type) : Type := Prog C A Jump α

variable {C : Type} {A : C → Type}

/-- `[ p ]` and `[[ p ]]`. -/
def test (p : Prop) [Decidable p] : Sh C A ℕ := pure (if p then 0 else 1)

/-- `cond && body`; the status of a condition that fails is its own. -/
def andThen (cond body : Sh C A ℕ) : Sh C A ℕ := do
  let status ← cond
  if status = 0 then body else pure status

/-- `if cond; then body; fi`. -/
def ifThen (cond body : Sh C A ℕ) : Sh C A ℕ := do
  let status ← cond
  if status = 0 then body else pure 0

/-- A command where `set -e` is on and heeded. -/
def checked (c : Sh C A ℕ) : Sh C A ℕ := do
  let status ← c
  if status = 0 then pure 0 else throw (.exit status)

/-- `return status`. -/
def ret {α : Type} (status : ℕ) : Sh C A α := throw (.ret status)

/-- `continue`. -/
def next {α : Type} : Sh C A α := throw .next

/-- A function call: a `return` of the body is its status. -/
def function (body : Sh C A ℕ) : Sh C A ℕ := tryCatch body fun
  | .ret status => pure status
  | j => throw j

/-- `for (( i=...; i<=...; i++ ))`: so many turns from `i` on. What a turn
returns is the value of the variables that the loop sets. -/
def loop {σ : Type} (body : ℕ → Sh C A σ) : (left i : ℕ) → σ → Sh C A σ
  | 0, _, s => pure s
  | left + 1, i, s => do
    let s ← tryCatch (body i) fun
      | .next => pure s
      | j => throw j
    loop body left (i + 1) s

/-! ### Statuses -/

theorem ifThen_pure (status : ℕ) (body : Sh C A ℕ) :
    ifThen (pure status) body = if status = 0 then body else pure 0 := rfl

theorem andThen_pure (status : ℕ) (body : Sh C A ℕ) :
    andThen (pure status) body = if status = 0 then body else pure status := rfl

theorem ifThen_test (p : Prop) [Decidable p] (body : Sh C A ℕ) :
    ifThen (test p) body = if p then body else pure 0 := by
  rw [test, ifThen_pure]
  by_cases h : p <;> simp [h]

theorem andThen_test (p q : Prop) [Decidable p] [Decidable q] :
    andThen (test p) (test q) = (test (p ∧ q) : Sh C A ℕ) := by
  rw [test, andThen_pure]
  by_cases hp : p <;> simp [hp, test]

/-- The text of `$(...)`: without the newlines at its end. -/
def captured (output : Py.Str) : Py.Str := output.rdropWhile (· = '\n')

end Shell
end MqResiliency
