/-
# The phases of a benchmark

`_phase` of the benchmark client (`bench_client.py`): for a time, or so many
times, put a persistent message and commit it; in the measured phase record
how long the commit took, and after every hundredth look at the depth of the
queue. Every MQI call may fail with a reason, and some reasons end the
connection; the next attempt makes another.

What Python keeps in variables of its own (`state`, `stats`,
`measure_reasons`, `latencies`, `depths`) is one record here (`Books`).
-/
import MqResiliency.Bench.RoundTrip
import MqResiliency.Lib.Mq
import MqResiliency.Lib.Prog

namespace MqResiliency
namespace Bench

open Py Mq

/-! ### Commands -/

/-- An attribute that is inquired, of 32 bits. -/
structure Mqlong : Type where
  value : ℤ
  small : |value| ≤ 2 ^ 31

/-- `float(n)`. -/
def Mqlong.toDouble (n : Mqlong) : Double := .fin (n.value : ℚ) (Double.isDouble_intCast (n.small.trans (by norm_num)))

/-- What is printed. -/
inductive Said : Type where
  | commitFailed (reason : Reason)
  | publishFailed

inductive Cmd : Type where
  | mqi (c : Call Str Bytes Unit)
  /-- `time.monotonic()`. -/
  | clock
  /-- `write_textfile`: is it written? -/
  | publish (text : Str)
  | print (line : Said)
  | sleep (seconds : Double)

@[reducible] def Ans : Cmd → Type
  | .mqi c => c.Answer Mqlong
  | .clock => Double
  | .publish _ => Bool
  | .print _ => Unit
  | .sleep _ => Unit

abbrev Client (α : Type) : Type := Prog Cmd Ans Empty α

/-- An MQI call, and the reason if it raises `MQMIError`. -/
def mqi (c : Call Str Bytes Unit) : Client (Except Reason (c.Out Mqlong)) := Prog.ask (Cmd.mqi c)

def clock : Client Double := Prog.ask Cmd.clock

/-! ### One attempt -/

/-- What the client is started with. -/
structure Args : Type where
  queue : Str
  msgSize : ℤ
  textfile : Str
  interval : Double
  count : ℤ

/-- The messages that are put. -/
def Args.payload (args : Args) : Bytes := List.replicate (max 1 args.msgSize).toNat 120

/-- The connection, the statistics and the lists. -/
structure Books : Type where
  connected : Bool
  stats : RoundTripStats
  reasons : List Reason
  latencies : List Double
  depths : List Double

/-- A commit is recorded. -/
def Books.succeeded (b : Books) (dt : Double) : Books :=
  { b with
    latencies := b.latencies ++ [dt]
    stats := b.stats.recordSuccess dt }

/-- A failure is recorded. -/
def Books.failed (b : Books) (reason : Reason) : Books :=
  { b with
    stats := b.stats.recordFailure
    reasons := b.reasons ++ [reason] }

/-- `_connect`, where there is no connection. -/
def connect (connected : Bool) : Client (Except Reason Unit) :=
  if connected then pure (.ok ()) else mqi .connect

/-- `_commit_once`: is there a connection now, and how long did the commit take? -/
def commitOnce (args : Args) (connected : Bool) : Client (Bool × Except Reason Double) := do
  match ← connect connected with
  | .error reason => pure (false, .error reason)
  | .ok _ =>
    match ← mqi (.put args.queue args.payload) with
    | .error reason => pure (true, .error reason)
    | .ok _ =>
      let t0 ← clock
      match ← mqi .commit with
      | .error reason => pure (true, .error reason)
      | .ok _ =>
        let t1 ← clock
        pure (true, .ok ((t1.sub t0).scale 1000))

/-- `_current_depth`. -/
def currentDepth (args : Args) (connected : Bool) : Client (Except Reason Double) := do
  if !connected then return .ok Double.zero
  match ← mqi (.openQ args.queue) with
  | .error reason => pure (.error reason)
  | .ok _ =>
    let depth ← mqi .inquire
    -- what `finally` raises is raised instead
    match ← mqi .closeQ with
    | .error reason => pure (.error reason)
    | .ok _ => pure (depth.map Mqlong.toDouble)

/-- `_disconnect`. -/
def disconnect (connected : Bool) : Client Unit := do
  if connected then
    let _ ← mqi .disconnect

/-- The body of the `try`, and what it raises. -/
def tryCommit (args : Args) (record : Bool) (b : Books) (i : ℕ) : Client (Books × Option Reason) := do
  match ← commitOnce args b.connected with
  | (connected, .error reason) => pure ({ b with connected := connected }, some reason)
  | (connected, .ok dt) =>
    if record then
      let b := { b with connected := connected }.succeeded dt
      if i % 100 = 0 then
        match ← currentDepth args b.connected with
        | .error reason => pure (b, some reason)
        | .ok depth => pure ({ b with depths := b.depths ++ [depth] }, none)
      else pure (b, none)
    else pure ({ b with connected := connected }, none)

/-- The `except`. -/
def onError (record : Bool) (b : Books) (reason : Reason) : Client Books := do
  let b := if record then b.failed reason else b
  Prog.ask (Cmd.print (.commitFailed reason))
  if isReconnectable reason then
    disconnect b.connected
    pure { b with connected := false }
  else pure b

def attempt (args : Args) (record : Bool) (b : Books) (i : ℕ) : Client Books := do
  match ← tryCommit args record b i with
  | (b, none) => pure b
  | (b, some reason) => onError record b reason

/-! ### A phase -/

/-- `publish_metrics`. -/
def publishMetrics (stats : RoundTripStats) : Client Unit := do
  if !(← Prog.ask (Cmd.publish (renderProm stats))) then
    Prog.ask (Cmd.print .publishFailed)

/-- What follows an attempt. -/
def pace (args : Args) (record : Bool) (b : Books) : Client Unit := do
  if record ∧ args.textfile ≠ [] then
    publishMetrics b.stats
  if args.interval.isTrue then
    Prog.ask (Cmd.sleep args.interval)

/-- The condition of the `while`. -/
def goesOn (duration start : Double) (count : ℤ) (i : ℕ) : Client Bool := do
  if 0 < count ∧ (i : ℤ) < count then return true
  if count = 0 then
    let now ← clock
    return (now.sub start).lt duration
  return false

/-- The `while`, at its `i`th turn. -/
def turns (args : Args) (duration start : Double) (count : ℤ) (record : Bool) : ℕ → Books → ℕ → Client (Books × ℕ)
  | 0, _, _ => .stop
  | n + 1, b, i => do
    if ← goesOn duration start count i then
      let b ← attempt args record b i
      pace args record b
      turns args duration start count record n b (i + 1)
    else pure (b, i)

/-- `_phase`, with lists of its own, and how many turns it made. -/
def phase (args : Args) (duration : Double) (count : ℤ) (record : Bool) (n : ℕ) (b : Books) : Client (Books × ℕ) := do
  let start ← clock
  turns args duration start count record n { b with latencies := [], depths := [] } 0

/-- `RoundTripStats()`, and nothing else. -/
def Books.fresh (connected : Bool) : Books := ⟨connected, .init bucketsMs, [], [], []⟩

/-- The warmup, and the measured phase. -/
def measured (args : Args) (warmup measure : Double) (n : ℕ) : Client (Books × ℕ) := do
  let (b, _) ← phase args warmup 0 false n (.fresh false)
  phase args measure args.count true n b

end Bench
end MqResiliency
