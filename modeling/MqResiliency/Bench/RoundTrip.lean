/-
# The round trips of a requester

`RoundTripStats` counts attempts and failures, and how many latencies are
within each bucket edge; `render_prom` is their textfile. The requester and the
benchmark client keep these statistics.

A count has fewer digits than Python refuses to print.
-/
import MqResiliency.Lib.Conv
import MqResiliency.Lib.GeneralText
import MqResiliency.Lib.Histogram

namespace MqResiliency
namespace Bench

open Py

instance exactBound : NeZero (2 ^ 53) := ⟨by decide⟩

/-- A bucket edge that is a small integer. -/
def edge (n : Fin (2 ^ 53)) : PyFloat where
  minus := false
  value := .fin ((n : ℤ) : ℚ) (Double.isDouble_intCast (abs_le.mpr (by omega)))

/-- `_BUCKETS_MS`. -/
def bucketsMs : List PyFloat :=
  [edge 1, edge 2, edge 5, edge 10, edge 20, edge 50, edge 100, edge 200, edge 500, edge 1000, edge 2000, edge 5000]

/-- `_RECONNECT_REASONS`: the connection is dead. -/
def reconnectReasons : List ℕ := [2009, 2018, 2019, 2059, 2161, 2162, 2202, 2203]

/-- `_is_reconnectable`. -/
def isReconnectable (reason : ℕ) : Bool := reason ∈ reconnectReasons

/-- The statistics; there is one count for each bucket. -/
structure RoundTripStats : Type where
  buckets : List PyFloat
  total : ℤ
  failures : ℤ
  sumMs : Double
  bucketHits : List ℤ
  aligned : bucketHits.length = buckets.length

namespace RoundTripStats

/-- `RoundTripStats(buckets)`. -/
def init (buckets : List PyFloat) : RoundTripStats where
  buckets := buckets
  total := 0
  failures := 0
  sumMs := Double.zero
  bucketHits := List.replicate buckets.length 0
  aligned := List.length_replicate

def successes (s : RoundTripStats) : ℤ := s.total - s.failures

/-- `latency_ms <= edge`. -/
def within (latency : Double) (edge : PyFloat) : Bool := latency.le edge.value

def recordSuccess (s : RoundTripStats) (latency : Double) : RoundTripStats where
  buckets := s.buckets
  total := s.total + 1
  failures := s.failures
  sumMs := s.sumMs.add latency
  bucketHits := Histogram.observe within s.buckets s.bucketHits latency
  aligned := by rw [Histogram.observe, List.length_zipWith, s.aligned, Nat.min_self]

def recordFailure (s : RoundTripStats) : RoundTripStats :=
  { s with
    total := s.total + 1
    failures := s.failures + 1 }

@[simp] theorem total_recordSuccess (s : RoundTripStats) (dt : Double) : (s.recordSuccess dt).total = s.total + 1 := rfl
@[simp] theorem failures_recordSuccess (s : RoundTripStats) (dt : Double) : (s.recordSuccess dt).failures = s.failures := rfl
@[simp] theorem buckets_recordSuccess (s : RoundTripStats) (dt : Double) : (s.recordSuccess dt).buckets = s.buckets := rfl
@[simp] theorem total_recordFailure (s : RoundTripStats) : s.recordFailure.total = s.total + 1 := rfl
@[simp] theorem failures_recordFailure (s : RoundTripStats) : s.recordFailure.failures = s.failures + 1 := rfl
@[simp] theorem buckets_recordFailure (s : RoundTripStats) : s.recordFailure.buckets = s.buckets := rfl

end RoundTripStats

/-! ### The textfile -/

/-- A row of `_TEXTFILE_HELP`. -/
structure Help : Type where
  name : Str
  kind : Str
  desc : Str

def totalHelp : Help :=
  ⟨"app_roundtrip_total".toList, "counter".toList, "Total app round-trips attempted.".toList⟩

def failuresHelp : Help :=
  ⟨"app_roundtrip_failures_total".toList, "counter".toList,
    "App round-trips that failed (no reply / error).".toList⟩

def latencyHelp : Help :=
  ⟨"app_roundtrip_latency_ms".toList, "histogram".toList, "Successful round-trip latency (ms).".toList⟩

/-- `# HELP` and `# TYPE`. -/
def Help.lines (h : Help) : List Str :=
  ["# HELP ".toList ++ h.name ++ ' ' :: h.desc, "# TYPE ".toList ++ h.name ++ ' ' :: h.kind]

/-- A series, and its value. -/
def sampleLine (series value : Str) : Str := series ++ ' ' :: value

/-- `_counter`. -/
def counterLines (h : Help) (value : ℤ) : List Str := h.lines ++ [sampleLine h.name (Conv.textOf value)]

/-- The series of a bucket. -/
def bucketSeries (label : Str) : Str := "app_roundtrip_latency_ms_bucket\x7ble=\"".toList ++ label ++ "\"\x7d".toList

def bucketLine (label : Str) (hits : ℤ) : Str := sampleLine (bucketSeries label) (Conv.textOf hits)

/-- The lines of `render_prom`. -/
def promLines (s : RoundTripStats) : List Str :=
  counterLines totalHelp s.total ++ counterLines failuresHelp s.failures ++ latencyHelp.lines ++
    List.zipWith (fun edge hits => bucketLine edge.generalText hits) s.buckets s.bucketHits ++
    [bucketLine "+Inf".toList s.successes,
      sampleLine "app_roundtrip_latency_ms_sum".toList (PyFloat.mk false s.sumMs).generalText,
      sampleLine "app_roundtrip_latency_ms_count".toList (Conv.textOf s.successes)]

/-- `render_prom`. -/
def renderProm (s : RoundTripStats) : Str := ['\n'].intercalate (promLines s) ++ ['\n']

end Bench
end MqResiliency
