/-
# The perf sampler

`perfsampler.py`: one tick of `Sampler` probes the host, the machine it runs on
and each guest, notes what failed and what recovered, and appends one sample;
`stop` notes what still fails. A note keeps the probe and the count that its
text has.
-/
import MqResiliency.Perf.Record

namespace MqResiliency
namespace Perf

open Py

/-! ### Probes -/

/-- An exception. -/
structure Exc : Type where
  type : Str
  text : Str
deriving DecidableEq

/-- `f"{type(exc).__name__}: {exc}"`. -/
def Exc.msg (e : Exc) : Str := e.type ++ ": ".toList ++ e.text

/-- `HostSample`. -/
structure HostSample : Type where
  cpuPct : ℚ
  iowaitPct : ℚ
  cpus : Option ℤ := none
deriving DecidableEq

inductive Probe : Type where
  | host
  | vergilVm
  | guest (name : Str)
deriving DecidableEq

/-- The name of a probe in notes. -/
def Probe.key : Probe → Str
  | host => "host".toList
  | vergilVm => "vergil-vm".toList
  | guest name => "guest ".toList ++ name

/-- What a tick meets: the clock, the source, and the pool, which may not start. -/
structure Tick : Type where
  clock : Except Exc ℚ
  host : Except Exc HostSample
  localVm : Except Exc LocalSample
  pool : Option Exc
  guest : Str → Except Exc GuestSample
  notes : Except Exc (List Str)

/-! ### Notes -/

inductive Note : Type where
  | unavailable (key msg : Str)
  | recovered (key : Str) (n : ℕ)
  | atStop (key : Str) (n : ℕ)
  | sourceNotes (msg : Str)
  | message (text : Str)
  | tickFailed (msg : Str)
  | hung (timeout : Str)
  | cleanupFailed (msg : Str)
deriving DecidableEq

namespace Note

/-- The text of a count. -/
def count (n : ℕ) : Str := Nat.toDigits 10 n

def text : Note → Str
  | unavailable key msg => key ++ ": sample unavailable (".toList ++ msg ++ ")".toList
  | recovered key n => key ++ ": sample recovered after ".toList ++ count n ++ " failed probe(s)".toList
  | atStop key n => key ++ ": still unavailable at stop (".toList ++ count n ++ " consecutive failed probe(s))".toList
  | sourceNotes msg => "sampler: source notes unavailable (".toList ++ msg ++ ")".toList
  | message text => "sampler: ".toList ++ text
  | tickFailed msg => "sampler: tick failed (".toList ++ msg ++ "); continuing".toList
  | hung timeout => "sampler: thread did not stop within ".toList ++ timeout ++ "s; abandoning it (daemon)".toList
  | cleanupFailed msg => "sampler: source cleanup failed (".toList ++ msg ++ ")".toList

/-- The probe that a note names. -/
def key? : Note → Option Str
  | unavailable key _ => some key
  | recovered key _ => some key
  | atStop key _ => some key
  | _ => none

/-- What a closing note counts. -/
def closing? : Note → Option ℕ
  | recovered _ n => some n
  | atStop _ n => some n
  | _ => none

end Note

/-! ### The sampler -/

/-- `Sampler`, with what it has put into its record. -/
structure Sampler : Type where
  guests : List Str
  startedAt : ℚ
  failCount : Dict Str ℕ
  lastError : Dict Str Str
  notes : List Note
  samples : List HostContentionSample

namespace Sampler

def start (guests : List Str) (startedAt : ℚ) : Sampler := ⟨guests, startedAt, .empty, .empty, [], []⟩

/-- `self._record.note`. -/
def note (s : Sampler) (n : Note) : Sampler := { s with notes := s.notes ++ [n] }

/-- The record with what the sampler has put there. -/
def record (s : Sampler) (r : PerfRecord) : PerfRecord :=
  { r with notes := r.notes ++ s.notes.map Note.text, samples := r.samples ++ s.samples }

/-- `_failed`. -/
def failed (s : Sampler) (key msg : Str) : Sampler :=
  let s := { s with failCount := s.failCount.set key ((s.failCount.get? key).getD 0 + 1) }
  if s.lastError.get? key ≠ some msg then
    { s with lastError := s.lastError.set key msg }.note (.unavailable key msg)
  else s

/-- `_succeeded`. -/
def succeeded (s : Sampler) (key : Str) : Sampler :=
  if key ∈ s.lastError.keys then
    let n := (s.failCount.get? key).getD 0
    { s with lastError := s.lastError.erase key, failCount := s.failCount.erase key }.note (.recovered key n)
  else s

/-- What a probe came to. -/
def probed {α : Type} (s : Sampler) (p : Probe) : Except Exc α → Sampler
  | .error e => s.failed p.key e.msg
  | .ok _ => s.succeeded p.key

/-- `_drain_source_notes`. -/
def drain (s : Sampler) : Except Exc (List Str) → Sampler
  | .error e => s.note (.sourceNotes e.msg)
  | .ok messages => messages.foldl (fun s m => s.note (.message m)) s

/-- The sample of a tick at time `t`. -/
def sample (guests : List Str) (t : ℚ) (k : Tick) : HostContentionSample where
  t := t
  hostCpu := k.host.toOption.map (·.cpuPct)
  hostIowait := k.host.toOption.map (·.iowaitPct)
  hostCpus := k.host.toOption.bind (·.cpus)
  guests := .ofList (guests.filterMap fun name => (k.guest name).toOption.map fun reading => (name, reading))
  localSample := k.localVm.toOption

/-- `tick`, and the exception that escapes. -/
def tick (s : Sampler) (k : Tick) : Sampler × Option Exc :=
  match k.clock with
  | .error e => (s, some e)
  | .ok now =>
    let s := s.probed .host k.host
    let s := s.probed .vergilVm k.localVm
    match (if s.guests = [] then none else k.pool) with
    | some e => (s, some e)
    | none =>
      let s := s.guests.foldl (fun s name => s.probed (.guest name) (k.guest name)) s
      let s := s.drain k.notes
      ({ s with samples := s.samples ++ [sample s.guests (now - s.startedAt) k] }, none)

/-- One round of `_loop`. -/
def round (s : Sampler) (k : Tick) : Sampler :=
  match s.tick k with
  | (s, some e) => s.note (.tickFailed e.msg)
  | (s, none) => s

/-- `stop`; `hung` is the timeout if the thread did not end, `problems` what
`close` returns. -/
def stop (s : Sampler) (hung : Option Str) (problems : Except Exc (List Str)) : Sampler :=
  let s := hung.elim s fun timeout => s.note (.hung timeout)
  let failing := s.failCount.items
  let s := { s with failCount := .empty, lastError := .empty }
  let s := failing.foldl (fun s p => s.note (.atStop p.1 p.2)) s
  match problems with
  | .error e => s.note (.cleanupFailed e.msg)
  | .ok problems => problems.foldl (fun s m => s.note (.message m)) s

/-- A run of the sampler. -/
def run (guests : List Str) (startedAt : ℚ) (ticks : List Tick) (hung : Option Str)
    (problems : Except Exc (List Str)) : Sampler :=
  (ticks.foldl round (start guests startedAt)).stop hung problems

end Sampler

end Perf
end MqResiliency
