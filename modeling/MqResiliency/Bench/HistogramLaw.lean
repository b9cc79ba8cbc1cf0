/-
# The latency histogram

What a textfile of round trips has to be (`IsHistogram`): a cumulative
histogram of the successes, whose buckets do not fall, end in `+Inf` at the
number of successes, and have labels of their own.

The counts always are (`counts_of_history`); the labels are distinct if and
only if no two edges have the same six digits (`histogram_iff`).
-/
import MqResiliency.Bench.RoundTrip
import MqResiliency.Lib.Decimal

namespace MqResiliency
namespace Bench

open Py

/-! ### Histories -/

/-- What is recorded. -/
inductive Recorded : Type where
  | success (latency : Double)
  | failure

def Recorded.latency? : Recorded → Option Double
  | success latency => some latency
  | failure => none

def RoundTripStats.record (s : RoundTripStats) : Recorded → RoundTripStats
  | .success latency => s.recordSuccess latency
  | .failure => s.recordFailure

/-- The latencies of the successes. -/
def latencies (ops : List Recorded) : List Double := ops.filterMap Recorded.latency?

/-- The statistics after a history. -/
def recorded (buckets : List PyFloat) (ops : List Recorded) : RoundTripStats :=
  ops.foldl RoundTripStats.record (.init buckets)

/-- The edges of a histogram, which ascend. -/
structure Edges : Type where
  buckets : List PyFloat
  ascending : buckets.Pairwise fun e e' => e.value.lt e'.value

/-! ### The property -/

/-- The numbers of a textfile: each bucket has a label and a count. -/
structure Numbers : Type where
  total : ℤ
  failures : ℤ
  buckets : List (Str × ℤ)
  sum : Str
  count : ℤ

/-- These numbers as samples. -/
def Numbers.samples (n : Numbers) : List (Str × Str) :=
  [(totalHelp.name, Conv.textOf n.total), (failuresHelp.name, Conv.textOf n.failures)] ++
    n.buckets.map (fun b => (bucketSeries b.1, Conv.textOf b.2)) ++
    [("app_roundtrip_latency_ms_sum".toList, n.sum), ("app_roundtrip_latency_ms_count".toList, Conv.textOf n.count)]

/-- The numbers are a histogram of the successes of a history. -/
structure IsHistogram (edges : List PyFloat) (ops : List Recorded) (n : Numbers) : Prop where
  cumulative : ∀ (i : ℕ) (edge : PyFloat), edges[i]? = some edge →
    n.buckets[i]? = some (edge.generalText, (((latencies ops).countP fun latency => latency.le edge.value : ℕ) : ℤ))
  nondecreasing : (n.buckets.map Prod.snd).Pairwise (· ≤ ·)
  bounded : ∀ b ∈ n.buckets, b.2 ≤ n.count
  infinite : n.buckets[edges.length]? = some ("+Inf".toList, n.count)
  complete : n.buckets.length = edges.length + 1
  counted : n.count = (latencies ops).length
  difference : n.count = n.total - n.failures
  distinct : (n.buckets.map Prod.fst).Nodup

/-! ### Counts of a history -/

theorem length_eq_add (ops : List Recorded) :
    ops.length = (latencies ops).length + ops.countP (fun op => op.latency?.isNone) := by
  induction ops with
  | nil => rfl
  | cons op ops ih =>
    cases op with
    | success latency =>
      have hsome : latencies (.success latency :: ops) = latency :: latencies ops := rfl
      rw [hsome, List.countP_cons_of_neg (by simp [Recorded.latency?])]
      simp only [List.length_cons]
      omega
    | failure =>
      have hnone : latencies (.failure :: ops) = latencies ops := rfl
      rw [hnone, List.countP_cons_of_pos (by simp [Recorded.latency?])]
      simp only [List.length_cons]
      omega

theorem buckets_recorded (buckets : List PyFloat) (ops : List Recorded) : (recorded buckets ops).buckets = buckets := by
  induction ops using List.reverseRecOn with
  | nil => rfl
  | append_singleton ops op ih =>
    rw [recorded, List.foldl_append]
    cases op <;> exact ih

/-- **Every history keeps the counts.** -/
theorem counts_of_history (buckets : List PyFloat) (ops : List Recorded) :
    (recorded buckets ops).total = ops.length ∧
      (recorded buckets ops).failures = (ops.countP fun op => op.latency?.isNone : ℕ) ∧
      (recorded buckets ops).bucketHits = Histogram.within RoundTripStats.within buckets (latencies ops) := by
  induction ops using List.reverseRecOn with
  | nil => exact ⟨rfl, rfl, (Histogram.within_nil _ buckets).symm⟩
  | append_singleton ops op ih =>
    obtain ⟨htotal, hfailures, hhits⟩ := ih
    have hbuckets := buckets_recorded buckets ops
    have hstep : recorded buckets (ops ++ [op]) = (recorded buckets ops).record op := by
      rw [recorded, List.foldl_append]
      rfl
    have hlatencies : latencies (ops ++ [op]) = latencies ops ++ latencies [op] := List.filterMap_append
    rw [hstep, hlatencies, List.countP_append, List.length_append]
    cases op with
    | success latency =>
      refine ⟨?_, ?_, ?_⟩
      · show (recorded buckets ops).total + 1 = _
        rw [htotal]
        rfl
      · exact hfailures
      · show Histogram.observe _ _ _ _ = _
        rw [hbuckets, hhits]
        exact Histogram.observe_within _ buckets (latencies ops) latency
    | failure =>
      refine ⟨?_, ?_, ?_⟩
      · show (recorded buckets ops).total + 1 = _
        rw [htotal]
        rfl
      · show (recorded buckets ops).failures + 1 = _
        rw [hfailures]
        rfl
      · show (recorded buckets ops).bucketHits = _
        rw [hhits]
        exact congrArg _ (List.append_nil _).symm

theorem successes_recorded (buckets : List PyFloat) (ops : List Recorded) :
    (recorded buckets ops).successes = (latencies ops).length := by
  obtain ⟨htotal, hfailures, -⟩ := counts_of_history buckets ops
  have hlength := length_eq_add ops
  rw [RoundTripStats.successes, htotal, hfailures]
  omega

/-! ### The samples of a textfile -/

/-- A text without blanks that stays on one line. -/
def Unbroken (s : Str) : Prop := ∀ c ∈ s, c ≠ ' ' ∧ isLineBreak c = false

instance (s : Str) : Decidable (Unbroken s) := inferInstanceAs (Decidable (∀ c ∈ s, c ≠ ' ' ∧ isLineBreak c = false))

theorem unbroken_append {s t : Str} (hs : Unbroken s) (ht : Unbroken t) : Unbroken (s ++ t) := fun c hc =>
  (List.mem_append.mp hc).elim (hs c) (ht c)

theorem unbroken_of_isDigit {s : Str} (h : ∀ c ∈ s, c.isDigit) : Unbroken s := by
  intro c hc
  have hrange := toNat_of_isDigit (h c hc)
  constructor
  · rintro rfl
    exact absurd (h ' ' hc) (by decide)
  · have hends : c ≠ '\n' ∧ c ≠ '\r' := by
      constructor <;>
      · rintro rfl
        exact absurd (h _ hc) (by decide)
    simp only [isLineBreak, decide_eq_false_iff_not, hends.1, hends.2, false_or]
    omega

theorem unbroken_generalText (x : PyFloat) : Unbroken x.generalText := by
  intro c hc
  rcases mem_generalText x c hc with hdigit | hmem
  · exact unbroken_of_isDigit (s := [c]) (by simpa using hdigit) c (List.mem_singleton_self c)
  · exact (by decide : ∀ c ∈ "naif.e+-".toList, c ≠ ' ' ∧ isLineBreak c = false) c hmem

theorem unbroken_textOf (n : ℤ) : Unbroken (Conv.textOf n) := by
  have hdigits : Unbroken (Nat.toDigits 10 n.natAbs) := unbroken_of_isDigit (isDigit_toDigits n.natAbs)
  unfold Conv.textOf
  by_cases hneg : n < 0
  · rw [if_pos hneg]
    exact unbroken_append (s := ['-']) (by decide) hdigits
  · rw [if_neg hneg]
    exact hdigits

/-- Lines, and what samples are in them. -/
structure Reads (ls : List Str) (ss : List (Str × Str)) : Prop where
  unbroken : ∀ line ∈ ls, ∀ c ∈ line, isLineBreak c = false
  samples : (ls.filter fun line => !isComment line).map sampleOf = ss

theorem Reads.append {ls ls' : List Str} {ss ss' : List (Str × Str)} (h : Reads ls ss) (h' : Reads ls' ss') :
    Reads (ls ++ ls') (ss ++ ss') where
  unbroken := fun line hline => (List.mem_append.mp hline).elim (h.unbroken line) (h'.unbroken line)
  samples := by rw [List.filter_append, List.map_append, h.samples, h'.samples]

theorem reads_help {h : Help} (hmem : h ∈ [totalHelp, failuresHelp, latencyHelp]) : Reads h.lines [] := by
  have hlines : ∀ h ∈ [totalHelp, failuresHelp, latencyHelp],
      (∀ line ∈ h.lines, ∀ c ∈ line, isLineBreak c = false) ∧
        (h.lines.filter fun line => !isComment line).map sampleOf = [] := by decide
  exact ⟨(hlines h hmem).1, (hlines h hmem).2⟩

theorem reads_sample {series value : Str} (hs : Unbroken series) (hv : Unbroken value) (hhead : series.head? = some 'a') :
    Reads [sampleLine series value] [(series, value)] where
  unbroken := by
    intro line hline c hc
    rw [List.mem_singleton.mp hline] at hc
    rcases List.mem_append.mp hc with hc | hc
    · exact (hs c hc).2
    · rcases List.mem_cons.mp hc with rfl | hc
      · rfl
      · exact (hv c hc).2
  samples := by
    have hshown : isComment (sampleLine series value) = false := by
      rw [isComment, sampleLine, List.head?_append, hhead]
      rfl
    rw [List.filter_cons_of_pos (by simp [hshown]), List.filter_nil, List.map_singleton, sampleLine,
      sampleOf_append fun h => (hs ' ' h).1 rfl]

theorem reads_buckets (bs : List (Str × ℤ)) (h : ∀ b ∈ bs, Unbroken b.1) :
    Reads (bs.map fun b => bucketLine b.1 b.2) (bs.map fun b => (bucketSeries b.1, Conv.textOf b.2)) := by
  induction bs with
  | nil => exact ⟨fun _ hline => absurd hline List.not_mem_nil, rfl⟩
  | cons b bs ih =>
    have hseries : Unbroken (bucketSeries b.1) :=
      unbroken_append (unbroken_append (by decide) (h b List.mem_cons_self)) (by decide)
    exact (reads_sample hseries (unbroken_textOf b.2) rfl).append (ih fun c hc => h c (List.mem_cons_of_mem b hc))

/-- The numbers of statistics. -/
def numbersOf (s : RoundTripStats) : Numbers where
  total := s.total
  failures := s.failures
  buckets := List.zip (s.buckets.map PyFloat.generalText) s.bucketHits ++ [("+Inf".toList, s.successes)]
  sum := (PyFloat.mk false s.sumMs).generalText
  count := s.successes

theorem bucketLines_eq (s : RoundTripStats) :
    List.zipWith (fun edge hits => bucketLine edge.generalText hits) s.buckets s.bucketHits ++
      [bucketLine "+Inf".toList s.successes] = (numbersOf s).buckets.map fun b => bucketLine b.1 b.2 := by
  rw [numbersOf, List.map_append, List.zip_map_left, List.map_map, List.zip, List.map_zipWith]
  rfl

theorem unbroken_label {s : RoundTripStats} {b : Str × ℤ} (h : b ∈ (numbersOf s).buckets) : Unbroken b.1 := by
  rcases List.mem_append.mp h with h | h
  · obtain ⟨edge, -, he⟩ := List.mem_map.mp (List.of_mem_zip h).1
    rw [← he]
    exact unbroken_generalText edge
  · rw [List.mem_singleton.mp h]
    exact (by decide : Unbroken "+Inf".toList)

/-- **A textfile has these samples and no others.** -/
theorem samples_renderProm (s : RoundTripStats) : samples (renderProm s) = (numbersOf s).samples := by
  have hcounter : ∀ (h : Help) (n : ℤ), h ∈ [totalHelp, failuresHelp] →
      Reads (counterLines h n) [(h.name, Conv.textOf n)] := by
    intro h n hmem
    have hname : ∀ h ∈ [totalHelp, failuresHelp], Unbroken h.name ∧ h.name.head? = some 'a' := by decide
    have hhelp : h ∈ [totalHelp, failuresHelp, latencyHelp] := List.mem_append_left [latencyHelp] hmem
    exact (reads_help hhelp).append (reads_sample (hname h hmem).1 (unbroken_textOf n) (hname h hmem).2)
  have hreads := (hcounter totalHelp s.total (by simp)).append ((hcounter failuresHelp s.failures (by simp)).append
    ((reads_help (h := latencyHelp) (by simp)).append
      ((reads_buckets (numbersOf s).buckets fun b hb => unbroken_label hb).append
        ((reads_sample (by decide : Unbroken "app_roundtrip_latency_ms_sum".toList)
          (unbroken_generalText (PyFloat.mk false s.sumMs)) rfl).append
          (reads_sample (by decide : Unbroken "app_roundtrip_latency_ms_count".toList)
            (unbroken_textOf s.successes) rfl)))))
  have hlines : promLines s = counterLines totalHelp s.total ++ (counterLines failuresHelp s.failures ++
      (latencyHelp.lines ++ ((numbersOf s).buckets.map (fun b => bucketLine b.1 b.2) ++
        ([sampleLine "app_roundtrip_latency_ms_sum".toList (PyFloat.mk false s.sumMs).generalText] ++
          [sampleLine "app_roundtrip_latency_ms_count".toList (Conv.textOf s.successes)])))) := by
    rw [← bucketLines_eq, promLines]
    simp only [List.append_assoc, List.cons_append, List.nil_append]
  rw [← hlines] at hreads
  have hne : promLines s ≠ [] := by
    rw [hlines, counterLines, Help.lines]
    exact List.cons_ne_nil _ _
  rw [renderProm, samples_intercalate hne hreads.unbroken, hreads.samples, Numbers.samples]
  simp only [List.cons_append, List.nil_append, numbersOf]

/-! ### Labels -/

theorem bucketSeries_injective {l l' : Str} (h : bucketSeries l = bucketSeries l') : l = l' :=
  List.append_cancel_left (List.append_cancel_right h)

/-- The labels of numbers are in their samples. -/
theorem labels_of_samples {n n' : Numbers} (h : n.samples = n'.samples) :
    n.buckets.map Prod.fst = n'.buckets.map Prod.fst := by
  have hseries := congrArg (fun ss : List (Str × Str) => ss.map Prod.fst) h
  simp only [Numbers.samples, List.map_append, List.map_cons, List.map_nil, List.map_map, List.cons_append,
    List.nil_append, List.cons.injEq, true_and] at hseries
  have hlabels := (List.append_inj' hseries rfl).1
  refine List.map_injective_iff.mpr (fun _ _ => bucketSeries_injective) ?_
  rw [List.map_map, List.map_map]
  exact hlabels

/-- The labels of a textfile are the texts of its edges, and `+Inf`. -/
theorem labels_numbersOf (s : RoundTripStats) :
    (numbersOf s).buckets.map Prod.fst = s.buckets.map PyFloat.generalText ++ ["+Inf".toList] := by
  rw [numbersOf, List.map_append, List.map_fst_zip (by rw [List.length_map, s.aligned])]
  rfl

/-- `+Inf` is the text of no float. -/
theorem generalText_ne_inf (x : PyFloat) : x.generalText ≠ "+Inf".toList := by
  intro h
  have hmem : 'I' ∈ x.generalText := by
    rw [h]
    decide
  exact absurd (mem_generalText x 'I' hmem) (by unfold IsNumberChar; decide)

theorem nodup_labels_iff (buckets : List PyFloat) :
    (buckets.map PyFloat.generalText ++ ["+Inf".toList]).Nodup ↔ (buckets.map PyFloat.rounded).Nodup := by
  have hlast : ∀ a ∈ buckets.map PyFloat.generalText, ∀ b ∈ ["+Inf".toList], a ≠ b := by
    intro a ha b hb
    obtain ⟨x, -, rfl⟩ := List.mem_map.mp ha
    rw [List.mem_singleton.mp hb]
    exact generalText_ne_inf x
  rw [List.nodup_append, List.Nodup, List.Nodup, List.pairwise_map, List.pairwise_map]
  constructor
  · intro h
    exact h.1.imp fun hne he => hne (generalText_eq_iff.mpr he)
  · intro h
    exact ⟨h.imp fun hne he => hne (generalText_eq_iff.mp he), List.pairwise_singleton _ _, hlast⟩

/-! ### Main result -/

/-- What is within an edge is within the next. -/
theorem within_of_lt {e e' : PyFloat} (h : e.value.lt e'.value) (latency : Double)
    (hle : RoundTripStats.within latency e) : RoundTripStats.within latency e' := by
  have hstep : e.value.le e'.value := (Bool.and_eq_true_iff.mp h).1
  exact Double.le_trans hle hstep

/-- The numbers after a history are a histogram, but for the labels. -/
theorem isHistogram_of_nodup (edges : Edges) (ops : List Recorded)
    (h : ((numbersOf (recorded edges.buckets ops)).buckets.map Prod.fst).Nodup) :
    IsHistogram edges.buckets ops (numbersOf (recorded edges.buckets ops)) := by
  obtain ⟨-, -, hhits⟩ := counts_of_history edges.buckets ops
  have hedges := buckets_recorded edges.buckets ops
  have hsuccesses := successes_recorded edges.buckets ops
  have hlength := Histogram.length_within RoundTripStats.within edges.buckets (latencies ops)
  have hbuckets : (numbersOf (recorded edges.buckets ops)).buckets =
      List.zip (edges.buckets.map PyFloat.generalText)
        (Histogram.within RoundTripStats.within edges.buckets (latencies ops)) ++
        [("+Inf".toList, ((latencies ops).length : ℤ))] := by
    rw [numbersOf, hedges, hhits, hsuccesses]
  have hsnd : (numbersOf (recorded edges.buckets ops)).buckets.map Prod.snd =
      Histogram.within RoundTripStats.within edges.buckets (latencies ops) ++ [((latencies ops).length : ℤ)] := by
    rw [hbuckets, List.map_append, List.map_snd_zip (by rw [hlength, List.length_map])]
    rfl
  have hbelow : ∀ n ∈ Histogram.within RoundTripStats.within edges.buckets (latencies ops),
      n ≤ ((latencies ops).length : ℤ) := fun n hn => Histogram.le_length_of_mem_within _ hn
  have hzip : (List.zip (edges.buckets.map PyFloat.generalText)
      (Histogram.within RoundTripStats.within edges.buckets (latencies ops))).length = edges.buckets.length := by
    rw [List.length_zip, List.length_map, hlength, Nat.min_self]
  constructor
  · intro i edge hedge
    obtain ⟨hi, -⟩ := List.getElem?_eq_some_iff.mp hedge
    rw [hbuckets, List.getElem?_append_left (by rw [hzip]; exact hi), List.getElem?_zip_eq_some]
    constructor
    · rw [List.getElem?_map, hedge]
      rfl
    · rw [Histogram.within, List.getElem?_map, hedge]
      rfl
  · rw [hsnd, List.pairwise_append]
    refine ⟨Histogram.pairwise_within _ (edges.ascending.imp fun hlt a => within_of_lt hlt a) _,
      List.pairwise_singleton _ _, fun n hn m hm => ?_⟩
    rw [List.mem_singleton.mp hm]
    exact hbelow n hn
  · intro b hb
    have hmem := List.mem_map_of_mem (f := Prod.snd) hb
    rw [hsnd] at hmem
    show b.2 ≤ (recorded edges.buckets ops).successes
    rw [hsuccesses]
    rcases List.mem_append.mp hmem with hmem | hmem
    · exact hbelow b.2 hmem
    · rw [List.mem_singleton.mp hmem]
  · show (numbersOf (recorded edges.buckets ops)).buckets[edges.buckets.length]? =
      some ("+Inf".toList, (recorded edges.buckets ops).successes)
    rw [hbuckets, hsuccesses, List.getElem?_append_right hzip.le, hzip, Nat.sub_self]
    rfl
  · rw [hbuckets, List.length_append, hzip]
    rfl
  · exact hsuccesses
  · rfl
  · exact h

/-- **Where the textfile is a histogram.** After any history of successes and
failures the textfile has the numbers of a histogram of the successes if and
only if no two edges round to the same six digits, with one sign. -/
theorem histogram_iff (edges : Edges) (ops : List Recorded) :
    (∃ n : Numbers, samples (renderProm (recorded edges.buckets ops)) = n.samples ∧
      IsHistogram edges.buckets ops n) ↔ (edges.buckets.map PyFloat.rounded).Nodup := by
  have hlabels : (numbersOf (recorded edges.buckets ops)).buckets.map Prod.fst =
      edges.buckets.map PyFloat.generalText ++ ["+Inf".toList] := by
    rw [labels_numbersOf, buckets_recorded]
  rw [← nodup_labels_iff, ← hlabels]
  constructor
  · rintro ⟨n, hsamples, hn⟩
    rw [samples_renderProm] at hsamples
    rw [labels_of_samples hsamples]
    exact hn.distinct
  · intro h
    exact ⟨numbersOf (recorded edges.buckets ops), samples_renderProm _, isHistogram_of_nodup edges ops h⟩

/-- Two edges with the same six digits. -/
def closeEdges : Edges := ⟨[edge 1000000, edge 1000001], by decide +kernel⟩

/-- Their buckets have one label, from the start. -/
theorem close_edges_collide : ¬ ∃ n : Numbers,
    samples (renderProm (recorded closeEdges.buckets [])) = n.samples ∧ IsHistogram closeEdges.buckets [] n := by
  rintro ⟨n, hsamples, hn⟩
  have hdistinct := hn.distinct
  rw [samples_renderProm] at hsamples
  rw [← labels_of_samples hsamples, labels_numbersOf] at hdistinct
  have hround : ¬ (closeEdges.buckets.map PyFloat.rounded).Nodup := by decide +kernel
  exact hround ((nodup_labels_iff closeEdges.buckets).mp hdistinct)

/-- The edges of the default histogram have labels of their own. -/
theorem nodup_bucketsMs : (bucketsMs.map PyFloat.rounded).Nodup := by decide +kernel

end Bench
end MqResiliency
