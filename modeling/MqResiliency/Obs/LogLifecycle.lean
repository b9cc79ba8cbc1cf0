/-
# The log-lifecycle collector

`loglifecycle.py`: the parsers of `df -P` and of the listing of the extents,
the role of an instance, and the samples. `none` is where Python raises.
-/
import MqResiliency.Obs.NativeHaState

namespace MqResiliency
namespace Obs
namespace LogLifecycle

open Py
open NativeHaState (parseNativehaX)

/-! ### Parsing -/

structure Disk : Type where
  usedBytes : ℤ
  totalBytes : ℤ

/-- `fields[-n]`. -/
def fromEnd (fields : List Str) (n : ℕ) : Option Str := fields.reverse[n - 1]?

/-- `parse_disk`, `none` for a reading without its numbers. -/
def parseDisk (dfOut : Str) : Option Disk :=
  let lines := (splitlines dfOut).filter fun l => trim l ≠ []
  if lines.length < 2 then none
  else
    let fields := words (lines.getLastD [])
    ((fromEnd fields 5).bind Py.int).bind fun total =>
      ((fromEnd fields 4).bind Py.int).map fun used => ⟨used * 1024, total * 1024⟩

/-- The letter of an extent's name: `_EXTENT` is `^([SR])\d+\.LOG$`. -/
def extentLetter : Str → Option Char
  | [] => none
  | c :: s =>
    let isDecimal := fun d => (decimal d).isSome
    if (c = 'S' ∨ c = 'R') ∧ s.takeWhile isDecimal ≠ [] ∧ s.dropWhile isDecimal = ".LOG".toList then some c else none

/-- The extents of a letter in a listing; `count_extents` counts `S` and `R`. -/
def countExtents (letter : Char) (listing : List Str) : ℕ :=
  listing.countP fun name => extentLetter (trim name) = some letter

/-- `instance_role`. -/
def instanceRole (py : Runtime) (dspmqOut inst : Str) : Str :=
  (((parseNativehaX py dspmqOut).instances.get? inst).map fun i => py.lower i.role).getD "unknown".toList

/-! ### Collecting -/

/-- What the role, `df` and `ls` probes came to. -/
structure LogProbes : Type where
  role : Option Output
  disk : Option Output
  extents : Option Output

/-- The row of a sample. -/
structure Row : Type where
  qm : Str
  inst : Str
  role : Str
  disk : Option Disk
  active : Option ℕ
  inactive : Option ℕ
  stale : Bool

def row (py : Runtime) (inst qm : Str) (p : LogProbes) : Row where
  qm := qm
  inst := inst
  role := (p.role.map fun out => instanceRole py out.text inst).getD "unknown".toList
  disk := p.disk.bind fun out => parseDisk out.text
  active := p.extents.map fun out => countExtents 'S' (splitlines out.text)
  inactive := p.extents.map fun out => countExtents 'R' (splitlines out.text)
  stale := p.disk.isNone || p.extents.isNone

/-- The samples of `render_prom`. -/
def render (r : Row) : List Sample :=
  let labels := [("qm".toList, r.qm), ("instance".toList, r.inst), ("role".toList, r.role)]
  (r.disk.elim [] fun d => [⟨"mqlab_log_disk_used_bytes".toList, labels, .int d.usedBytes⟩,
      ⟨"mqlab_log_disk_total_bytes".toList, labels, .int d.totalBytes⟩]) ++
    (r.active.elim [] fun n => [⟨"mqlab_log_extents_active".toList, labels, .int n⟩]) ++
    (r.inactive.elim [] fun n => [⟨"mqlab_log_extents_inactive".toList, labels, .int n⟩]) ++
    [⟨"mqlab_log_sample_stale".toList, labels, flag r.stale⟩]

/-- The samples of `collect`. -/
def samples (py : Runtime) (inst qm : Str) (p : LogProbes) : List Sample := render (row py inst qm p)

end LogLifecycle
end Obs
end MqResiliency
