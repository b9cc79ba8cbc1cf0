/-
# Teardown of a stack

`mqlab teardown` (`_teardown_run` in `cli.py`): the plan from a probe of the
domains (`planDestroy`), the reference count of the other stacks
(`otherStacksUp`), the run of the steps (`orchestrator.run_steps`), and what
follows a run that succeeded: the stack's record is deleted, the huge pages
are released on the last stack, and the base images are collected.

The exit status of a probe is not looked at; its lines are parsed as they are.
-/
import MqResiliency.Lab.Lifecycle
import MqResiliency.Lab.Topology
import MqResiliency.Lib.Prog

namespace MqResiliency
namespace Lab
namespace Teardown

open Prog Py

/-! ### Commands -/

/-- What a step runs. -/
inductive Action : Type where
  /-- `virsh destroy lab_g`. -/
  | destroy (g : Str)
  /-- `virsh undefine lab_g --remove-all-storage --nvram`. -/
  | undefine (g : Str)
  /-- `rm -rf` of Vagrant's state of the machine. -/
  | forgetMachine (g : Str)
  /-- The play that returns the huge pages. -/
  | releaseHugepages
deriving DecidableEq

/-- The guest that an action is about. -/
def Action.guest : Action → Option Str
  | destroy g => some g
  | undefine g => some g
  | forgetMachine g => some g
  | releaseHugepages => none

/-- `CommandStep`: its label and its command. -/
structure Step : Type where
  label : Str
  action : Action
deriving DecidableEq

/-- The step, under another label. -/
def Step.relabel (f : Str → Str) (s : Step) : Step := ⟨f s.label, s.action⟩

/-- What the command asks of its surroundings. -/
inductive Cmd : Type where
  /-- `virsh list --all`. -/
  | listAll
  /-- `_vagrant_machine_dir(g).exists()`. -/
  | machineDir (g : Str)
  | act (a : Action)
  /-- The operator's key, under `--step`. -/
  | pause
  | note (text : Str)
  /-- `instances.delete_record(stack)`. -/
  | deleteRecord (stack : Str)
  /-- `box.gc_orphaned_images_best_effort()`. -/
  | gcImages
deriving DecidableEq

/-- What a probe came to. -/
structure Listing : Type where
  rc : ℤ
  lines : List Str
deriving DecidableEq

/-- The answers: a listing, whether there is one, an exit status, whether
there is a terminal, and the summary of what was collected. -/
abbrev Ans : Cmd → Type
  | .listAll => Listing
  | .machineDir _ => Bool
  | .act _ => ℤ
  | .pause => Bool
  | .note _ => Unit
  | .deleteRecord _ => Unit
  | .gcImages => Option Str

/-- How the command ends before its end. -/
inductive Halt : Type where
  /-- `typer.Exit(code)`. -/
  | exit (code : ℤ)
  /-- `StepFailedError`. -/
  | stepFailed (label : Str) (code : ℤ)
  /-- `NoTTYError`. -/
  | noTty
  /-- The `ValueError` of `topology.memory_backing`. -/
  | badLever
deriving DecidableEq

abbrev Td (α : Type) : Type := Prog Cmd Ans Halt α

/-! ### The plan -/

/-- The states that a listing tells. -/
def Listing.states (l : Listing) : Dict Str Str := parseDomainStates (['\n'].intercalate l.lines)

/-- `_probe_states(deps)`. -/
def probeStates : Td (Dict Str Str) := do
  let l : Listing ← ask Cmd.listAll
  return l.states

def forceoffStep (g : Str) : Step := ⟨g ++ " force-off".toList, .destroy g⟩

def undefineStep (g : Str) : Step := ⟨g ++ " undefine".toList, .undefine g⟩

def forgetMachineStep (g : Str) : Step := ⟨g ++ " forget vagrant machine".toList, .forgetMachine g⟩

/-- The steps that remove a guest's domain. -/
def removeSteps (states : Dict Str Str) (g : Str) : List Step :=
  if classify states g = .absent then []
  else if isLive states g then [forceoffStep g, undefineStep g]
  else [undefineStep g]

/-- The steps for one guest; `dir`: Vagrant has state of its machine. -/
def guestSteps (states : Dict Str Str) (g : Str) (dir : Bool) : List Step :=
  removeSteps states g ++ if dir then [forgetMachineStep g] else []

/-- The note for one guest. -/
def guestNotes (states : Dict Str Str) (g : Str) : List Str :=
  if classify states g = .absent then [g ++ ": already gone".toList] else []

/-- `_plan_destroy(guests, states)`: the steps, and the notes. -/
def planDestroy (states : Dict Str Str) : List Str → Td (List Step × List Str)
  | [] => pure ([], [])
  | g :: gs => do
    let dir : Bool ← ask (Cmd.machineDir g)
    let (steps, notes) ← planDestroy states gs
    return (guestSteps states g dir ++ steps, guestNotes states g ++ notes)

/-- Each text, to the operator. -/
def notes : List Str → Td Unit
  | [] => pure ()
  | t :: ts => do
    ask (Cmd.note t)
    notes ts

/-- A stack that `exclude`'s teardown counts: of another name, with a cluster
group and members, one of which is live. -/
def countsAsUp (topo : Topology) (states : Dict Str Str) (exclude : Str) (stack : Str × StackCfg) : Bool :=
  stack.1 ≠ exclude ∧ stack.2.cluster ≠ none ∧
    ((stackMembers topo stack.1).getD []).any (isLive states)

/-- `_other_stacks_up(deps, exclude)`. -/
def otherStacksUp (topo : Topology) (exclude : Str) : Td Bool := do
  let states ← probeStates
  return topo.labStacks.items.any (countsAsUp topo states exclude)

/-! ### The run -/

/-- `run_steps(steps, step_mode)`. -/
def runSteps (stepMode : Bool) : List Step → Td Unit
  | [] => pure ()
  | s :: ss => do
    let code : ℤ ← ask (Cmd.act s.action)
    if code ≠ 0 then throw (.stepFailed s.label code)
    else if stepMode ∧ ss ≠ [] then do
      let tty : Bool ← ask Cmd.pause
      if tty then runSteps stepMode ss else throw .noTty
    else runSteps stepMode ss

variable (topo : Topology) (stack : Str) (commons : Bool)

/-- The stack's members. -/
def members : List Str := (stackMembers topo stack).getD []

/-- The commons' VMs that are no members. -/
def commonsVms : List Str := (allVms topo stack false).filter (· ∉ members topo stack)

/-- `last_stack_down`: counted only where something depends on it. -/
def lastStackDown (lever : Bool) : Td Bool :=
  if lever ∨ commons = false then do
    let up ← otherStacksUp topo stack
    return !up
  else pure false

/-- The steps for the commons. -/
def commonsSteps (states : Dict Str Str) (destroyCommons : Bool) : Td (List Step) :=
  if destroyCommons then do
    let (raw, commonsNotes) ← planDestroy states (commonsVms topo stack)
    notes commonsNotes
    return raw.map (Step.relabel ("commons destroy: ".toList ++ ·))
  else do
    ask (Cmd.note ("commons VMs kept — another stack is still up ".toList ++
      "(use --commons to force removal)".toList))
    return []

/-- What becomes of the huge pages. -/
def settlePages (lever last : Bool) : Td Unit :=
  if lever ∧ last then runSteps false [⟨"release huge pages".toList, .releaseHugepages⟩]
  else if lever then ask (Cmd.note "huge pages kept — another stack's guests still use them".toList)
  else pure ()

/-- `box.gc_orphaned_images_best_effort()`, and its summary. -/
def collect : Td Unit := do
  let gc : Option Str ← ask Cmd.gcImages
  match gc with
  | some summary => ask (Cmd.note summary)
  | none => pure ()

/-- What follows the steps. -/
def finish (lever last : Bool) : Td Unit := do
  ask (Cmd.deleteRecord stack)
  settlePages lever last
  collect

/-- The part of the teardown that knows the lever. -/
def teardownWith (stepMode : Bool) (states : Dict Str Str) (memberSteps : List Step) (lever : Bool) :
    Td Unit := do
  let last ← lastStackDown topo stack commons lever
  let more ← commonsSteps topo stack states (commons || last)
  runSteps stepMode (memberSteps ++ more)
  finish stack lever last

/-- The teardown of a known stack. -/
def teardownSteps (stepMode : Bool) : Td Unit := do
  let states ← probeStates
  let (memberSteps, memberNotes) ← planDestroy states (members topo stack)
  notes memberNotes
  match hugepagesEnabled topo with
  | none => throw .badLever
  | some lever => teardownWith topo stack commons stepMode states memberSteps lever

/-- How a failure leaves the command. -/
def exitWith : Halt → Td Unit
  | .stepFailed _ code => throw (.exit code)
  | .noTty => throw (.exit 2)
  | e => throw e

/-- `_teardown_run(stack_name, commons, step)`. -/
def teardownRun (stepMode : Bool) : Td Unit :=
  if (topo.labStacks.get? stack).isNone then throw (.exit 2)
  else tryCatch (teardownSteps topo stack commons stepMode) exitWith

end Teardown
end Lab
end MqResiliency
