/-
# Huge pages for the guests

`hugepages.py`, `_reserve_hugepages` of `cli.py` and `host-hugepages.yml`: the
pages that the guests about to boot need, and the play that makes so many free
on the host, or fails. The sizes are those that `platforms.py` gives the
guests (`nodeSizing`).
-/
import Mathlib.Algebra.Ring.Int.Defs
import MqResiliency.Lab.Topology
import MqResiliency.Lib.Prog

namespace MqResiliency
namespace Hugepages

open Py Lab Prog

/-! ### Sizes -/

/-- A value that should be an integer; of what is none, its `repr` and what
`int` makes of it. -/
inductive Scalar : Type where
  | int (n : ℤ)
  | bool (b : Bool)
  | other (repr : Str) (asInt : Option ℤ)
deriving DecidableEq

structure Sizing : Type where
  cpus : Option Scalar
  memory : Option Scalar
deriving DecidableEq

/-- A topology with the sizes of its nodes; a node that is null has none. -/
structure Sized : Type extends Topology where
  sizing : Dict Str Sizing
  defaults : Sizing

/-- Why there is no size: a `PlatformError`, a `ValueError`, or what `int` raises. -/
inductive SizingError : Type where
  | notPositive (name key : Str) (value : Scalar)
  | noNode (guest : Str)
  | notInt (value : Scalar)
deriving DecidableEq

/-- A positive integer; a bool is none. -/
def Scalar.positive : Scalar → Option ℕ
  | int n => if n < 1 then none else some n.toNat
  | bool _ => none
  | other _ _ => none

/-- `int(value)`. -/
def Scalar.toInt : Scalar → Option ℤ
  | int n => some n
  | bool b => some (if b then 1 else 0)
  | other _ n => n

/-- `node_sizing`. -/
def nodeSizing (name : Str) (spec defaults : Sizing) : Except SizingError (ℕ × ℕ) :=
  let cpus := spec.cpus.getD (defaults.cpus.getD (.int 1))
  let memory := spec.memory.getD (defaults.memory.getD (.int 1024))
  match cpus.positive, memory.positive with
  | some c, some m => .ok (c, m)
  | none, _ => .error (.notPositive name "cpus".toList cpus)
  | _, none => .error (.notPositive name "memory".toList memory)

/-- `PAGE_KIB`, `PAGE_MIB` and `MARGIN_PAGES`. -/
def pageKib : ℕ := 2048

def pageMib : ℤ := 2

def marginPages : ℤ := 128

/-- `pages_for`. -/
def pagesFor (memory : ℤ) : ℤ := -(-memory / pageMib)

variable (topo : Sized)

/-- `guest_memory_mib`. -/
def guestMemoryMib (guest : Str) : Except SizingError ℤ :=
  match topo.sizing.get? guest with
  | none => .error (.noNode guest)
  | some spec =>
    let value := spec.memory.getD (topo.defaults.memory.getD (.int 1024))
    match value.toInt with
    | some n => .ok n
    | none => .error (.notInt value)

/-- `needed_pages`. -/
def neededPages (guests : List Str) : Except SizingError ℤ :=
  if guests = [] then .ok 0
  else do
    let pages ← guests.mapM fun g => do return pagesFor (← guestMemoryMib topo g)
    return pages.sum + marginPages

/-! ### Commands -/

/-- The counters of `/proc/meminfo`. -/
structure Meminfo : Type where
  total : ℕ
  free : ℕ
  rsvd : ℕ
  sizeKib : ℕ
deriving DecidableEq

/-- `hp_available`. -/
def Meminfo.available (hp : Meminfo) : ℤ := (hp.free : ℤ) - hp.rsvd

inductive Cmd : Type where
  | meminfo
  /-- `sysctl -w vm.nr_hugepages=…`. -/
  | resize (target : ℤ)
  | sync
  /-- The same after `vm.drop_caches=3` and `vm.compact_memory=1`. -/
  | reclaim (target : ℤ)

/-- A counter may be missing; the others exit with 0 or not. -/
def Ans : Cmd → Type
  | .meminfo => Option Meminfo
  | _ => Bool

inductive Failure : Type where
  | badLever
  | sizing (error : SizingError)
  /-- `reserve_command` wants a positive count. -/
  | badCount (needed : ℤ)
  /-- No counters: the kernel has no huge pages. -/
  | noHugetlb
  /-- A task of the play. -/
  | stepFailed (task : Str)

abbrev Play (α : Type) : Type := Prog Cmd Ans Failure α

/-- `read_meminfo`, by mqlab or by a task. -/
def slurp (failure : Failure) : Play Meminfo := do
  let found : Option Meminfo ← ask Cmd.meminfo
  match found with
  | some hp => return hp
  | none => throw failure

/-- A task that runs a command. -/
def task (name : String) (command : Play Bool) : Play Unit := must command (.stepFailed name.toList)

def resize (target : ℤ) : Play Bool := ask (Cmd.resize target)

def sync : Play Bool := ask Cmd.sync

def reclaim (target : ℤ) : Play Bool := ask (Cmd.reclaim target)

/-- A task that asserts. -/
def require (name : String) (p : Prop) [Decidable p] : Play Unit :=
  if p then pure () else throw (.stepFailed name.toList)

/-- `when:`. -/
def onlyWhen (p : Prop) [Decidable p] (t : Play Unit) : Play Unit := if p then t else pure ()

def readTask : Play Meminfo := slurp (.stepFailed "Read the huge-page counters".toList)

/-- The block `Reserve` of the play, with what comes before it. -/
def reservePlay (needed : ℤ) : Play Unit := do
  require "Require a reserve size or the release flag" (0 < needed)
  let hp ← readTask
  require "Require the 2 MiB default huge-page size" (hp.sizeKib = pageKib)
  let target := (hp.total : ℤ) - hp.available + needed
  onlyWhen (hp.available < needed) (task "Set vm.nr_hugepages to the target" (resize target))
  let hp ← readTask
  onlyWhen (hp.available < needed) (task "Flush dirty pages before dropping caches" sync)
  onlyWhen (hp.available < needed) (task "Reclaim: drop caches and compact memory, then retry" (reclaim target))
  let hp ← readTask
  require "Fail loud unless the guests' pages are free" (needed ≤ hp.available)

/-- The block `Release`. -/
def releasePlay : Play Unit := do
  let hp ← readTask
  require "Require the 2 MiB default huge-page size" (hp.sizeKib = pageKib)
  task "Return every huge page to the kernel" (resize 0)
  let hp ← readTask
  require "Fail loud if any huge page is still held" (hp.total = 0)

/-- What a size raises. -/
def sized {α : Type} : Except SizingError α → Play α
  | .ok a => pure a
  | .error e => throw (.sizing e)

/-- `_reserve_hugepages`, for the guests about to boot. -/
def reserveHugepages (toBoot : List Str) : Play Unit :=
  match hugepagesEnabled topo.toTopology with
  | none => throw .badLever
  | some false => pure ()
  | some true => do
    let needed ← sized (neededPages topo toBoot)
    if needed = 0 then pure ()
    else do
      let _before ← slurp .noHugetlb
      onlyWhen (needed < 1) (throw (.badCount needed))
      reservePlay needed
      let _after ← slurp .noHugetlb
      pure ()

end Hugepages
end MqResiliency
