/-
# Two perf records compared

`mqlab perf diff` (`perfdiff.py`): what two reports say of each phase and
milestone, which phase differs most, and each side's steal and host means. A
report is any JSON value, and what is no report raises `PerfDiffError`. A
value's `repr` is a parameter.
-/
import Mathlib.Data.List.MinMax
import Mathlib.Data.List.Sort
import MqResiliency.Perf.Record
import MqResiliency.Lib.Yaml

namespace MqResiliency
namespace Perf

open Py

/-! ### Values -/

/-- `PerfDiffError`. -/
structure PerfDiffError where
  text : Str
deriving DecidableEq

/-- A JSON object, as the `dict` that Python makes of it. -/
def dictOf : Json ℚ → Option (Dict Str (Json ℚ))
  | .obj ps => some (Dict.ofList ps)
  | _ => none

/-- `float(v)` where `_is_num(v)`. -/
def numOf : Json ℚ → Option ℚ
  | .int n => some n
  | .float x => some x
  | _ => none

/-- `v` where `_is_int(v)`. -/
def intOf : Json ℚ → Option ℤ
  | .int n => some n
  | _ => none

def strOf : Json ℚ → Option Str
  | .str s => some s
  | _ => none

/-- `type(v).__name__`. -/
def typeName : Json ℚ → String
  | .null => "NoneType"
  | .bool _ => "bool"
  | .int _ => "int"
  | .float _ => "float"
  | .str _ => "str"
  | .arr _ => "list"
  | .obj _ => "dict"

/-- A record as it was loaded. -/
abbrev Rec : Type := Dict Str (Json ℚ)

/-- `rec.get(k)`. -/
def Rec.at (rec : Rec) (k : String) : Json ℚ := (rec.get? k.toList).getD .null

section
-- `repr(v)`
variable (repr : Json ℚ → Str)

/-! ### What is validated -/

def raiseOn {α : Type} (side : String) (text : Str) : Except PerfDiffError α :=
  .error ⟨"report ".toList ++ side.toList ++ ": ".toList ++ text⟩

/-- A phase's seconds, retries and failed steps. -/
def phaseOf (side : String) (name : Str) (body : Json ℚ) : Except PerfDiffError (ℚ × ℤ × ℤ) :=
  let read : Option (ℚ × ℤ × ℤ) := do
    let fields ← dictOf body
    let seconds ← numOf (Rec.at fields "seconds")
    let retries ← intOf (Rec.at fields "retries")
    let failed ← intOf ((fields.get? "failed".toList).getD (.int 0))
    return (seconds, retries, failed)
  match read with
  | some v => .ok v
  | none => raiseOn side ("phase ".toList ++ repr (.str name) ++
      " needs numeric 'seconds' + int 'retries' (+ int 'failed', if present)".toList)

/-- Each item of a `dict`, read by `f`. -/
def readAll {α β : Type} (f : Str → α → Except PerfDiffError β) (d : Dict Str α) : Except PerfDiffError (Dict Str β) :=
  d.items.foldlM (fun out p => (f p.1 p.2).map (out.set p.1)) .empty

def phases (rec : Rec) (side : String) : Except PerfDiffError (Dict Str (ℚ × ℤ × ℤ)) :=
  match dictOf (rec.at "phases") with
  | none => raiseOn side ("'phases' must be a mapping, got ".toList ++ repr (rec.at "phases"))
  | some raw => readAll (phaseOf repr side) raw

def milestoneOf (side : String) (name : Str) (seconds : Json ℚ) : Except PerfDiffError ℚ :=
  match numOf seconds with
  | some x => .ok x
  | none => raiseOn side ("milestone ".toList ++ repr (.str name) ++ " must be numeric seconds, got ".toList ++ repr seconds)

def milestones (rec : Rec) (side : String) : Except PerfDiffError (Dict Str ℚ) :=
  match dictOf (rec.at "milestones") with
  | none => raiseOn side ("'milestones' must be a mapping, got ".toList ++ repr (rec.at "milestones"))
  | some raw => readAll (milestoneOf repr side) raw

def stack (rec : Rec) (side : String) : Except PerfDiffError (Option Str) :=
  match rec.at "stack" with
  | .null => .ok none
  | .str s => .ok (some s)
  | v => raiseOn side ("'stack' must be a string, got ".toList ++ repr v)

def notes (rec : Rec) (side : String) : Except PerfDiffError (List Str) :=
  let raw := (rec.get? "notes".toList).getD (.arr [])
  let out : Option (List Str) :=
    match raw with
    | .arr vs => vs.mapM strOf
    | _ => none
  match out with
  | some texts => .ok texts
  | none => raiseOn side ("'notes' must be a list of strings, got ".toList ++ repr raw)

end

/-! ### Host samples -/

/-- `_STEAL_KEYS`. -/
def stealKeys : List String := ["steal", "steal_pct"]

def guestSteal (value : Json ℚ) : Option ℚ :=
  match dictOf value with
  | some fields => stealKeys.findSome? fun k => numOf (Rec.at fields k)
  | none => numOf value

/-- Is there a steal key with a null? -/
def isBaseline (value : Json ℚ) : Bool :=
  match dictOf value with
  | some fields => stealKeys.any fun k =>
      match fields.get? k.toList with
      | some .null => true
      | _ => false
  | none => false

structure StealContributor where
  guest : Str
  meanStealPct : ℚ
  samples : ℕ
deriving DecidableEq

/-- Readings by guest, and how many entries had none. -/
abbrev Readings : Type := Dict Str (List ℚ) × ℕ

def guestReading (acc : Readings) (p : Str × Json ℚ) : Readings :=
  match guestSteal p.2 with
  | none => (acc.1, acc.2 + if isBaseline p.2 then 0 else 1)
  | some steal => (acc.1.push p.1 steal, acc.2)

def sampleReadings (acc : Readings) (sample : Json ℚ) : Readings :=
  match (dictOf sample).bind fun fields => dictOf (Rec.at fields "guests") with
  | none => (acc.1, acc.2 + 1)
  | some guests => guests.items.foldl guestReading acc

/-- `sum(v) / len(v)`. -/
def mean (v : List ℚ) : ℚ := v.sum / v.length

/-- The order of `(-c.mean_steal_pct, c.guest)`. -/
def ranks (c d : StealContributor) : Bool :=
  d.meanStealPct < c.meanStealPct ∨ (c.meanStealPct = d.meanStealPct ∧ strLe c.guest d.guest)

/-- `TOP_STEAL`. -/
def topSteal : ℕ := 5

/-- All that had a reading, the most steal first. -/
def ranked (perGuest : Dict Str (List ℚ)) : List StealContributor :=
  (perGuest.items.map fun p => ⟨p.1, mean p.2, p.2.length⟩).insertionSort fun c d => ranks c d = true

def steal (rec : Rec) (side : String) : Option (List StealContributor) × List Str :=
  match rec.get? "samples".toList with
  | none => (none, [(side ++ ": no host-contention samples (report predates the sampler, #1203, " ++
      "or sampling was off) — steal contributors skipped").toList])
  | some (.arr []) => (some [], [(side ++ ": 'samples' is empty").toList])
  | some (.arr samples) =>
    let (perGuest, unreadable) := samples.foldl sampleReadings (.empty, 0)
    let notes := if unreadable = 0 then [] else
      [side.toList ++ ": ".toList ++ Nat.toDigits 10 unreadable ++
        " sample entr(y/ies) had no readable steal; skipped".toList]
    (some ((ranked perGuest).take topSteal), notes)
  | some v => (none, [(side ++ ": 'samples' is not a list (" ++ typeName v ++ "); skipped").toList])

/-- `_HOST_KEYS`. -/
def hostKeys : List String := ["cpu", "iowait", "self_steal", "self_busy", "self_iowait"]

/-- The host mapping of a sample. -/
def hostOf (sample : Json ℚ) : Option Rec := (dictOf sample).bind fun fields => dictOf (Rec.at fields "host")

def hostMeans (rec : Rec) (side : String) : Option (List (String × Option ℚ)) × List Str :=
  match rec.at "samples" with
  | .arr [] => (none, [])
  | .arr samples =>
    let hosts := samples.filterMap hostOf
    let unreadable := samples.countP fun s => (hostOf s).isNone
    let readings (k : String) : List ℚ := hosts.filterMap fun host => numOf (Rec.at host k)
    let notes := if unreadable = 0 then [] else
      [side.toList ++ ": ".toList ++ Nat.toDigits 10 unreadable ++ " sample(s) had no host mapping; skipped".toList]
    (some (hostKeys.map fun k => (k, if readings k = [] then none else some (mean (readings k)))), notes)
  | _ => (none, [])

/-! ### The diff -/

/-- One named duration on each side. -/
structure Compared where
  name : Str
  a : Option ℚ
  b : Option ℚ
deriving DecidableEq

/-- A - B. -/
def Compared.delta (c : Compared) : Option ℚ :=
  match c.a, c.b with
  | some a, some b => some (a - b)
  | _, _ => none

/-- A / B. -/
def Compared.ratio (c : Compared) : Option ℚ :=
  match c.a, c.b with
  | some a, some b => if b = 0 then none else some (a / b)
  | _, _ => none

structure PhaseDelta extends Compared where
  aRetries : Option ℤ
  bRetries : Option ℤ
  aFailed : Option ℤ
  bFailed : Option ℤ
deriving DecidableEq

structure DiffReport where
  aStack : Option Str
  bStack : Option Str
  phases : List PhaseDelta
  milestones : List Compared
  dominant : Option PhaseDelta
  stealA : Option (List StealContributor)
  stealB : Option (List StealContributor)
  hostA : Option (List (String × Option ℚ))
  hostB : Option (List (String × Option ℚ))
  aNotes : List Str
  bNotes : List Str
  notes : List Str
deriving DecidableEq

/-- A's keys in order, then B-only keys in B's order. -/
def union {α β : Type} (a : Dict Str α) (b : Dict Str β) : List Str := a.keys ++ b.keys.filter (· ∉ a.keys)

def phaseDelta (pa pb : Dict Str (ℚ × ℤ × ℤ)) (name : Str) : PhaseDelta where
  name := name
  a := (pa.get? name).map (·.1)
  b := (pb.get? name).map (·.1)
  aRetries := (pa.get? name).map (·.2.1)
  bRetries := (pb.get? name).map (·.2.1)
  aFailed := (pa.get? name).map (·.2.2)
  bFailed := (pb.get? name).map (·.2.2)

/-- How far the sides are apart in a phase. -/
def PhaseDelta.size (p : PhaseDelta) : ℚ := |p.delta.getD 0|

/-- On both sides, and not the same. -/
def PhaseDelta.diverges (p : PhaseDelta) : Bool := p.delta.getD 0 ≠ 0

/-- The first of those that differ most. -/
def dominantOf (ps : List PhaseDelta) : Option PhaseDelta := (ps.filter PhaseDelta.diverges).argmax PhaseDelta.size

def asRecord (v : Json ℚ) (side : String) : Except PerfDiffError Rec :=
  match dictOf v with
  | some rec => .ok rec
  | none => raiseOn side ("expected a JSON object, got " ++ typeName v).toList

/-- A stack in a note. -/
def stackText (s : Option Str) : Str := s.getD "None".toList

def diff (repr : Json ℚ → Str) (a b : Json ℚ) : Except PerfDiffError DiffReport := do
  let ra ← asRecord a "A"
  let rb ← asRecord b "B"
  let pa ← phases repr ra "A"
  let pb ← phases repr rb "B"
  let ma ← milestones repr ra "A"
  let mb ← milestones repr rb "B"
  let aStack ← stack repr ra "A"
  let bStack ← stack repr rb "B"
  let ps := (union pa pb).map (phaseDelta pa pb)
  let crossing := if aStack = bStack then [] else
    ["stacks differ (A=".toList ++ stackText aStack ++ ", B=".toList ++ stackText bStack ++
      "): the comparison crosses stacks".toList]
  let aNotes ← notes repr ra "A"
  let bNotes ← notes repr rb "B"
  return {
    aStack, bStack, phases := ps
    milestones := (union ma mb).map fun name => ⟨name, ma.get? name, mb.get? name⟩
    dominant := dominantOf ps
    stealA := (steal ra "A").1
    stealB := (steal rb "B").1
    hostA := (hostMeans ra "A").1
    hostB := (hostMeans rb "B").1
    aNotes, bNotes
    notes := crossing ++ (steal ra "A").2 ++ (steal rb "B").2 ++ (hostMeans ra "A").2 ++ (hostMeans rb "B").2 }

end Perf
end MqResiliency
