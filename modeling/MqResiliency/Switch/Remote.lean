/-
# Two sites

What the DR switches of all arms share: the two sites, one the mirror of the
other, and what a remote command comes to.
-/
import Mathlib.Logic.Basic
import MqResiliency.Lib.Text

namespace MqResiliency

/-- A site of the lab. -/
inductive Site : Type where
  | a | b
deriving DecidableEq

/-- What a command came to. -/
structure Ran : Type where
  rc : ℕ
  stdout : Py.Str

end MqResiliency
