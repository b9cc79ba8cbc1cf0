/-
# Applying a unit on the Active instance

`nativeha-on-active.yml` and the task files it includes: find the Active
instance of a Native HA group, run the steps of a unit there, and try again
where the failure may pass, up to a bound.

A fact that a `run_once` task sets is broadcast to every host of the play, so
it is one value here (`State`); what a host has of its own is the outcome of an
attempt (`Own`). A failure in the block reaches its `rescue`; a host that is
unreachable does not, and is out of the play.
-/
import MqResiliency.Lib.Conv
import MqResiliency.Lib.Regex
import MqResiliency.Lib.Tasks

namespace MqResiliency
namespace NativeHa

open Py Re Tasks

/-! ### Inputs -/

/-- One of `nha_steps`. -/
structure NhaStep : Type where
  label : Str
  cmd : Str
  stdin : Option Str := none
  okRcs : List ℤ := [0]
deriving DecidableEq

/-- The service tasks of `mq-event-monitor`. -/
inductive ServiceTask : Type where
  | readStanza | extractStanza | resolveDataDirectory | assertDataDirectory | readLogType | extractLogType
  | assertLogType | enableEvents | enableQueueEvents | computeClauses | assertDescr | defineService | verifyRunning
deriving DecidableEq

/-- Them in order. -/
def serviceTasks : List ServiceTask :=
  [.readStanza, .extractStanza, .resolveDataDirectory, .assertDataDirectory, .readLogType, .extractLogType,
    .assertLogType, .enableEvents, .enableQueueEvents, .computeClauses, .assertDescr, .defineService, .verifyRunning]

/-- What is run of a unit. -/
inductive Item : Type where
  | step (s : NhaStep)
  | service (t : ServiceTask)
deriving DecidableEq

/-- The variables of the include; `members` is `groups[nha_group]`, if there is
such a group. -/
structure Inputs : Type where
  members : Option (List Str)
  qm : Str
  label : Str
  steps : Option (List NhaStep)
  eventMonitor : Bool
  attempts : ℕ := 30
  delay : ℕ := 5
  findRetries : ℕ := 30
  findDelay : ℕ := 5

/-- The unit is well-formed. -/
def Inputs.WellFormed (inp : Inputs) : Prop :=
  inp.members.isSome ∧ inp.qm ≠ [] ∧ inp.steps.isSome ≠ inp.eventMonitor ∧ inp.steps ≠ some []

instance (inp : Inputs) : Decidable inp.WellFormed := inferInstanceAs (Decidable (_ ∧ _))

/-- The steps of the unit. -/
def Inputs.stepItems (inp : Inputs) : List Item := (inp.steps.getD []).map .step

/-- The role of the unit. -/
def Inputs.roleItems (inp : Inputs) : List Item := if inp.eventMonitor then serviceTasks.map .service else []

/-- All that is run of the unit, in order. -/
def Inputs.items (inp : Inputs) : List Item := inp.stepItems ++ inp.roleItems

/-! ### Results -/

/-- A result that failed; `label` is that of its step. -/
structure FailedResult : Type where
  label : Option Str
  rc : Option ℤ
  msg : Str
  stdout : Str
  stderr : Str
deriving DecidableEq

/-- What `dspmq` answers; there is no `rc` where it did not run. -/
structure Output : Type where
  rc : Option ℤ
  stdout : Str
  stderr : Str

/-- What a step comes to. -/
inductive StepResult : Type where
  | unreachable
  | ran (rc : ℤ) (msg stdout stderr : Str)
  | broken (msg : Str)

/-- `failed_when: _nha_run.rc not in nha_step.ok_rcs`. -/
def NhaStep.ended (s : NhaStep) : StepResult → Ended FailedResult
  | .unreachable => .unreachable
  | .ran rc msg stdout stderr => if rc ∈ s.okRcs then .ok else .failed [⟨some s.label, some rc, msg, stdout, stderr⟩]
  | .broken msg => .failed [⟨some s.label, none, msg, [], []⟩]

/-- `_nha_prev`. -/
structure Prev : Type where
  failed : Bool
  retryable : Bool
  host : Str
  reason : Str
  detail : Str
deriving DecidableEq

/-! ### Commands -/

/-- `dspmq` and the steps run on a host; the waits and the message do not. -/
inductive Cmd : Type where
  | dspmq (host : Str)
  | wait (seconds : ℕ)
  | pause (seconds : ℕ)
  | step (host : Str) (s : NhaStep)
  | service (host : Str) (t : ServiceTask)
  | debug (prev : Prev)

/-- `none`: the host is unreachable. -/
@[reducible] def Ans : Cmd → Type
  | .dspmq _ => Option Output
  | .step _ _ => StepResult
  | .service _ _ => Ended FailedResult
  | .wait _ | .pause _ | .debug _ => Unit

/-- What ends the play. -/
inductive Failed : Type where
  | malformed
  | unreachable (host : Str)
  | noActive (polls : ℕ) (last : Output)
  | noHosts
  | notRetryable (prev : Prev)
  | notApplied (attempts : ℕ) (prev : Prev)

abbrev Play (α : Type) : Type := Prog Cmd Ans Failed α

/-! ### Finding the Active -/

/-- `INSTANCE[(]([^)]+)[)] ROLE[(]Active[)]`. -/
def activeRe : Re :=
  seqs [lit "INSTANCE(".toList, group (plus (noneOf ")".toList)), lit ") ROLE(Active)".toList]

/-- The members of the group that `dspmq` lists as Active. -/
def actives (members : List Str) (stdout : Str) : List Str := (activeRe.findall stdout).filter (· ∈ members)

/-- A poll; `failed_when: false`, so only a host that is unreachable fails it. -/
def dspmq (host : Str) : Play Output := do
  match ← Prog.ask (Cmd.dspmq host) with
  | none => throw (.unreachable host)
  | some out => pure out

/-- The `until` loop; `n` retries are left. -/
def poll (inp : Inputs) (members : List Str) (host : Str) : ℕ → Play Output
  | 0 => dspmq host
  | n + 1 => do
    let out ← dspmq host
    if actives members out.stdout ≠ [] then pure out
    else
      Prog.ask (Cmd.wait inp.findDelay)
      poll inp members host n

/-- `nativeha-find-active.yml`: `active_host`. -/
def findActive (inp : Inputs) : Play Str := do
  match inp.members with
  | some (first :: rest) => do
    let out ← poll inp (first :: rest) first inp.findRetries
    match actives (first :: rest) out.stdout with
    | active :: _ => pure active
    | [] => throw (.noActive (inp.findRetries + 1) out)
  | _ => throw .malformed

/-! ### One attempt -/

/-- What a host has of its own. -/
structure Own : Type where
  ok : Bool
  failure : Option (List FailedResult)

/-- The hosts in the play, and the facts. -/
structure State : Type where
  hosts : List Str
  done : Bool
  prev : Prev
  own : Str → Own

/-- The state after "reset the leadership-following state". -/
def State.reset (hosts : List Str) : State where
  hosts := hosts
  done := false
  prev := ⟨false, true, [], [], []⟩
  own := fun _ => ⟨false, none⟩

/-- "clear this attempt's per-host outcome", of the hosts in the play. -/
def State.clear (s : State) : State :=
  { s with own := fun h => if h ∈ s.hosts then ⟨false, none⟩ else s.own h }

/-- A task on the Active sets its own facts. -/
def State.setOwn (s : State) (host : Str) (own : Own) : State :=
  { s with own := fun h => if h = host then own else s.own h }

/-- The host is out of the play. -/
def State.drop (s : State) (host : Str) : State := { s with hosts := s.hosts.filter fun h => h ≠ host }

def runItem (host : Str) : Item → Play (Ended FailedResult)
  | .step s => do
    let r ← Prog.ask (Cmd.step host s)
    pure (s.ended r)
  | .service t => Prog.ask (Cmd.service host t)

/-- The tasks of the block, up to the one that marks the attempt applied. -/
def runUnit (inp : Inputs) (host : Str) : Play (Done Item FailedResult) := do
  let steps ← looped (runItem host) inp.stepItems
  if verdict steps = .ok then
    let role ← inRow (runItem host) inp.roleItems
    pure (steps ++ role)
  else pure steps

/-- The block and its `rescue`, on the Active. -/
def apply (inp : Inputs) (s : State) (active : Str) : Play State := do
  let done ← runUnit inp active
  match verdict done with
  | .ok => pure (s.setOwn active ⟨true, (s.own active).failure⟩)
  | .failed results => pure (s.setOwn active ⟨(s.own active).ok, some results⟩)
  | .unreachable => pure (s.drop active)

-- `to_json` of what failed
variable (toJson : List FailedResult → Str)

/-- `_nha_prev.reason`. -/
def reasonText (active : Str) (inPlay ok : Bool) (failure : List FailedResult) : Str :=
  if ok then "applied".toList
  else if !inPlay then
    "the Active ".toList ++ active ++ " is not an active host of this play".toList ++
      " (unreachable or failed earlier)".toList
  else if Py.contains (toJson failure) "AMQ8478E".toList then
    "leadership moved: ".toList ++ active ++ " had become a Replica (AMQ8478E)".toList
  else if Py.contains (toJson failure) "AMQ8146E".toList then
    "the queue manager was not ready yet (AMQ8146E)".toList
  else "error (not a known Native HA transient)".toList

/-- A line of `_nha_prev.detail`. -/
def FailedResult.detail (f : FailedResult) : Str :=
  '[' :: f.label.getD "task".toList ++ " rc=".toList ++ f.rc.elim "n/a".toList Conv.textOf ++ "] ".toList ++ f.msg ++
    ' ' :: f.stdout ++ ' ' :: f.stderr ++ [' ']

/-- "record the outcome of attempt". -/
def State.record (s : State) (active : Str) : State :=
  let inPlay : Bool := active ∈ s.hosts
  let ok := inPlay && (s.own active).ok
  let failure := (s.own active).failure.getD []
  { s with
    done := ok
    prev :=
      { failed := !ok
        host := active
        retryable := !inPlay || failure.any fun f => f.rc.isSome
        reason := reasonText toJson active inPlay ok failure
        detail := failure.flatMap FailedResult.detail } }

/-- "wait before retrying on the same instance". -/
def pauseFor (inp : Inputs) (s : State) (active : Str) : Play Unit := do
  if s.prev.failed ∧ s.prev.host = active then
    Prog.ask (Cmd.pause inp.delay)

/-- The tasks that end an attempt. -/
def conclude (s : State) (active : Str) : Play State := do
  if s.hosts = [] then throw .noHosts
  let s := s.record toJson active
  if s.prev.failed then
    if !s.prev.retryable then throw (.notRetryable s.prev)
    Prog.ask (Cmd.debug s.prev)
  pure s

/-- `nativeha-on-active-attempt.yml`. -/
def attempt (inp : Inputs) (s : State) : Play State := do
  let active ← findActive inp
  pauseFor inp s active
  let s := s.clear
  let s ← if active ∈ s.hosts then apply inp s active else pure s
  conclude toJson s active

/-! ### The bounded loop -/

/-- The slots that are left: each is an attempt, unless one has applied the unit. -/
def slots (inp : Inputs) : ℕ → State → Play State
  | 0, s => pure s
  | n + 1, s => do
    let s ← if s.done then pure s else attempt toJson inp s
    slots inp n s

/-- `nativeha-on-active.yml`, in a play with these hosts. -/
def onActive (inp : Inputs) (hosts : List Str) : Play Unit := do
  if ¬ inp.WellFormed then throw .malformed
  let s ← slots toJson inp inp.attempts (.reset hosts)
  if !s.done then throw (.notApplied inp.attempts s.prev)

end NativeHa
end MqResiliency
