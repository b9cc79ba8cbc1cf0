/-
# The perf record of a run

What a run reports of its steps, milestones and host samples (`perf.py`), and
the JSON that it is saved as. Readings are exact rationals.
-/
import Mathlib.Algebra.Field.Rat
import Mathlib.Algebra.Order.Ring.Rat
import MqResiliency.Lib.Dict
import MqResiliency.Lib.JsonDump

namespace MqResiliency
namespace Perf

open Py

/-! ### Steps -/

/-- One finished step. -/
structure StepTiming where
  phase : Str
  label : Str
  seconds : ℚ
  retries : ℤ
  ok : Bool := true
deriving DecidableEq

/-- What a phase adds up to. -/
structure PhaseTotal where
  seconds : ℚ := 0
  retries : ℤ := 0
  failed : ℤ := 0
  steps : List StepTiming := []
deriving DecidableEq

def PhaseTotal.add (total : PhaseTotal) (s : StepTiming) : PhaseTotal where
  seconds := total.seconds + s.seconds
  retries := total.retries + s.retries
  failed := total.failed + if s.ok then 0 else 1
  steps := total.steps ++ [s]

def StepTiming.asDict (s : StepTiming) : Json ℚ :=
  .obj [("label".toList, .str s.label), ("seconds".toList, .float s.seconds), ("retries".toList, .int s.retries),
    ("ok".toList, .bool s.ok)]

def PhaseTotal.asDict (total : PhaseTotal) : Json ℚ :=
  .obj [("seconds".toList, .float total.seconds), ("retries".toList, .int total.retries),
    ("steps".toList, .arr (total.steps.map StepTiming.asDict)), ("failed".toList, .int total.failed)]

/-! ### Host samples -/

/-- One guest's reading; a percentage is missing from its first. -/
structure GuestSample where
  stealPct : Option ℚ
  busyPct : Option ℚ := none
  iowaitPct : Option ℚ := none
  load1 : Option ℚ := none
  load5 : Option ℚ := none
  load15 : Option ℚ := none
deriving DecidableEq

/-- The sampling machine's own reading. -/
structure LocalSample where
  stealPct : Option ℚ
  busyPct : Option ℚ
  iowaitPct : Option ℚ
deriving DecidableEq

structure HostContentionSample where
  t : ℚ
  hostCpu : Option ℚ
  hostIowait : Option ℚ
  hostCpus : Option ℤ
  guests : Dict Str GuestSample
  localSample : Option LocalSample := none
deriving DecidableEq

/-- A reading, or `null`. -/
def reading : Option ℚ → Json ℚ
  | some x => .float x
  | none => .null

def GuestSample.asDict (g : GuestSample) : Json ℚ :=
  .obj [("steal".toList, reading g.stealPct), ("busy".toList, reading g.busyPct), ("iowait".toList, reading g.iowaitPct),
    ("load1".toList, reading g.load1), ("load5".toList, reading g.load5), ("load15".toList, reading g.load15)]

/-- The host's fields of a sample. -/
def HostContentionSample.hostDict (s : HostContentionSample) : Json ℚ :=
  .obj [("cpu".toList, reading s.hostCpu), ("iowait".toList, reading s.hostIowait),
    ("cpus".toList, s.hostCpus.elim .null .int),
    ("self_steal".toList, reading (s.localSample.bind (·.stealPct))),
    ("self_busy".toList, reading (s.localSample.bind (·.busyPct))),
    ("self_iowait".toList, reading (s.localSample.bind (·.iowaitPct)))]

def HostContentionSample.asDict (s : HostContentionSample) : Json ℚ :=
  .obj [("t".toList, .float s.t), ("host".toList, s.hostDict),
    ("guests".toList, .obj (s.guests.items.map fun p => (p.1, p.2.asDict)))]

/-! ### The record -/

structure PerfRecord where
  stack : Str
  startedAt : ℚ
  steps : List StepTiming := []
  milestones : Dict Str ℚ := .empty
  notes : List Str := []
  samples : List HostContentionSample := []
  env : Option Str := none
  envSource : Option Str := none
deriving DecidableEq

namespace PerfRecord

def setEnv (r : PerfRecord) (env : Option Str) (source : Str) : PerfRecord :=
  { r with env := env, envSource := some source }

def note (r : PerfRecord) (text : Str) : PerfRecord := { r with notes := r.notes ++ [text] }

def addSample (r : PerfRecord) (s : HostContentionSample) : PerfRecord := { r with samples := r.samples ++ [s] }

def addStep (r : PerfRecord) (s : StepTiming) : PerfRecord := { r with steps := r.steps ++ [s] }

def addMilestone (r : PerfRecord) (name : Str) (seconds : ℚ) : PerfRecord :=
  { r with milestones := r.milestones.set name seconds }

/-- The steps by phase, in the order in which the phases were first seen. -/
def phases (r : PerfRecord) : Dict Str PhaseTotal :=
  r.steps.foldl (fun d s => d.set s.phase (((d.get? s.phase).getD {}).add s)) .empty

/-- What `to_json` writes. -/
def data (r : PerfRecord) : Json ℚ :=
  .obj [("stack".toList, .str r.stack), ("started_at".toList, .float r.startedAt),
    ("phases".toList, .obj (r.phases.items.map fun p => (p.1, p.2.asDict))),
    ("milestones".toList, .obj (r.milestones.items.map fun p => (p.1, .float p.2))),
    ("notes".toList, .arr (r.notes.map .str)),
    ("samples".toList, .arr (r.samples.map HostContentionSample.asDict)),
    ("env".toList, r.env.elim .null .str), ("env_source".toList, r.envSource.elim .null .str)]

/-- `to_json`; `repr` is that of floats. -/
def toJson (repr : ℚ → Str) (r : PerfRecord) : Str := dumps repr 0 r.data

end PerfRecord

/-- What a run does to its record. -/
inductive Op where
  | setEnv (env : Option Str) (source : Str)
  | note (text : Str)
  | addSample (s : HostContentionSample)
  | addStep (s : StepTiming)
  | addMilestone (name : Str) (seconds : ℚ)

def Op.apply (r : PerfRecord) : Op → PerfRecord
  | .setEnv env source => r.setEnv env source
  | .note text => r.note text
  | .addSample s => r.addSample s
  | .addStep s => r.addStep s
  | .addMilestone name seconds => r.addMilestone name seconds

/-- The record of a run. -/
def record (stack : Str) (startedAt : ℚ) (ops : List Op) : PerfRecord :=
  ops.foldl Op.apply { stack := stack, startedAt := startedAt }

end Perf
end MqResiliency
