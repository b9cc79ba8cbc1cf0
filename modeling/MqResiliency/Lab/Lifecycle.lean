/-
# The state of the guests

What `virsh list --all` says of the guests (`fleet.py`) and how the lifecycle
verbs read it (`lifecycle.py`). The domain of guest `g` is named `lab_g`.
-/
import MqResiliency.Lib.Dict
import MqResiliency.Lib.Regex

namespace MqResiliency
namespace Lab

open Py

/-- The domain of a guest. -/
def domainOf (g : Str) : Str := "lab_".toList ++ g

/-- One line of the listing: a domain and its state. -/
def parseDomainLine (raw : Str) : Option (Str × Str) :=
  let line := trim raw
  if line = [] ∨ "Id".toList.isPrefixOf line ∨ line.all (· = '-') then none
  else
    match words line with
    | _ :: name :: state :: more => some (name, [' '].intercalate (state :: more))
    | _ => none

/-- `parse_domain_states(text)`. -/
def parseDomainStates (text : Str) : Dict Str Str := .ofList ((splitlines text).filterMap parseDomainLine)

/-- What `classify` tells apart. -/
inductive Guest : Type where
  | absent | off | running
deriving DecidableEq

/-- `classify(states, guest)`. -/
def classify (states : Dict Str Str) (guest : Str) : Guest :=
  match states.get? (domainOf guest) with
  | none => .absent
  | some raw => if raw = "running".toList then .running else .off

/-- A domain in this state holds a live process: running, or paused. -/
def holdsProcess (state : Option Str) : Bool := state.any (· ≠ "shut off".toList)

/-- `is_live(states, guest)`. -/
def isLive (states : Dict Str Str) (guest : Str) : Bool := holdsProcess (states.get? (domainOf guest))

theorem classify_eq_absent {states : Dict Str Str} {g : Str} :
    classify states g = .absent ↔ states.get? (domainOf g) = none := by
  unfold classify
  split
  · rename_i h
    simp [h]
  · rename_i raw h
    split <;> simp [h]

end Lab
end MqResiliency
