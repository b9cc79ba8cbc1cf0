/-
# CPU percentages from `/proc/stat`

`perfsampler.py`: the aggregate line of `/proc/stat` as counters
(`parse_proc_stat_cpu`), and steal, busy and iowait as percentages of the ticks
between two readings (`cpu_pcts`), in exact rationals.

A counter that goes back makes a reading void. Idle is no counter that is looked
at: where it alone goes back, the other columns add up to more than all ticks
(`pcts_iff`).
-/
import Mathlib.Algebra.Order.BigOperators.Group.List
import Mathlib.Algebra.Order.Field.Basic
import Mathlib.Data.Rat.Cast.Order
import Mathlib.Tactic.Linarith
import Mathlib.Tactic.Ring
import MqResiliency.Lib.Regex

namespace MqResiliency
namespace Perf

open Py

/-! ### The columns -/

/-- `CpuCounters`. -/
structure CpuCounters where
  steal : ℤ
  total : ℤ
  busy : ℤ := 0
  iowait : ℤ := 0
deriving DecidableEq

/-- `CpuPcts`. -/
structure CpuPcts where
  steal : ℚ
  busy : ℚ
  iowait : ℚ
deriving DecidableEq

def stealCol : ℕ := 7

def iowaitCol : ℕ := 4

def busyCols : List ℕ := [0, 1, 2, 5, 6]

def totalCols : ℕ := 8

/-- The column that is in no percentage. -/
def idleCol : ℕ := 3

/-- What a `ValueError` of `parse_proc_stat_cpu` is about. -/
inductive StatError where
  | notCpuLine (text : Str)
  | notInt (field : Str)
deriving DecidableEq

/-- The integer of a field. -/
def ticksOf (field : Str) : Except StatError ℤ :=
  match int field with
  | some n => .ok n
  | none => .error (.notInt field)

/-- The `values` of a line. -/
def procStatValues (text : Str) : Except StatError (List ℤ) :=
  let parts := words text
  if parts.length < totalCols + 1 ∨ parts.head? ≠ some "cpu".toList then .error (.notCpuLine text)
  else ((parts.drop 1).take totalCols).mapM ticksOf

def counters (values : List ℤ) : CpuCounters where
  steal := values.getD stealCol 0
  total := values.sum
  busy := (busyCols.map fun i => values.getD i 0).sum
  iowait := values.getD iowaitCol 0

/-- `parse_proc_stat_cpu`. -/
def parseProcStatCpu (text : Str) : Except StatError CpuCounters := do
  return counters (← procStatValues text)

/-- `cpu_pcts`. -/
def cpuPcts (prev cur : CpuCounters) : Option CpuPcts :=
  let dTotal := cur.total - prev.total
  let dSteal := cur.steal - prev.steal
  let dBusy := cur.busy - prev.busy
  let dIowait := cur.iowait - prev.iowait
  if dTotal ≤ 0 ∨ min (min dSteal dBusy) dIowait < 0 then none
  else some ⟨dSteal / dTotal * 100, dBusy / dTotal * 100, dIowait / dTotal * 100⟩

/-! ### What elapsed -/

/-- A column of a line. -/
def column (text : Str) (k : ℕ) : ℤ := ((procStatValues text).toOption.getD []).getD k 0

/-- The ticks of a column between two lines. -/
def elapsed (prev cur : Str) (k : ℕ) : ℤ := column cur k - column prev k

def elapsedTotal (prev cur : Str) : ℤ := ((List.range totalCols).map (elapsed prev cur)).sum

def elapsedBusy (prev cur : Str) : ℤ := (busyCols.map (elapsed prev cur)).sum

/-- Idle went back, and the columns that are looked at did not. -/
def IdleHidden (prev cur : Str) : Prop :=
  elapsed prev cur idleCol < 0 ∧ 0 < elapsedTotal prev cur ∧ 0 ≤ elapsed prev cur stealCol ∧
    0 ≤ elapsedBusy prev cur ∧ 0 ≤ elapsed prev cur iowaitCol

/-- The share of the elapsed ticks, in percent. -/
def share (prev cur : Str) (ticks : ℤ) : ℚ := ticks / elapsedTotal prev cur * 100

/-- Percentages between two lines, or none. -/
structure Percentages (prev cur : Str) (r : Option CpuPcts) : Prop where
  steal : ∀ p, r = some p → 0 ≤ p.steal ∧ p.steal ≤ 100
  busy : ∀ p, r = some p → 0 ≤ p.busy ∧ p.busy ≤ 100
  iowait : ∀ p, r = some p → 0 ≤ p.iowait ∧ p.iowait ≤ 100
  sum : ∀ p, r = some p → p.steal + p.busy + p.iowait ≤ 100
  shares : (∀ k < totalCols, 0 ≤ elapsed prev cur k) → 0 < elapsedTotal prev cur →
    r = some ⟨share prev cur (elapsed prev cur stealCol), share prev cur (elapsedBusy prev cur),
      share prev cur (elapsed prev cur iowaitCol)⟩

/-! ### Lines -/

theorem length_mapM {ε α β : Type} {f : α → Except ε β} : ∀ {as : List α} {bs : List β}, as.mapM f = .ok bs →
    bs.length = as.length
  | [], bs, h => by
    obtain rfl : bs = [] := (Except.ok.inj h).symm
    rfl
  | a :: as, bs, h => by
    rw [List.mapM_cons] at h
    cases ha : f a with
    | error e =>
      rw [ha] at h
      cases h
    | ok b =>
      cases has : as.mapM f with
      | error e =>
        rw [ha, has] at h
        cases h
      | ok cs =>
        rw [ha, has] at h
        obtain rfl : bs = b :: cs := (Except.ok.inj h).symm
        rw [List.length_cons, List.length_cons, length_mapM has]

theorem length_procStatValues {text : Str} {values : List ℤ} (h : procStatValues text = .ok values) :
    values.length = totalCols := by
  unfold procStatValues at h
  dsimp only at h
  split at h
  · cases h
  · rename_i hline
    obtain ⟨hlen, -⟩ := not_or.mp hline
    rw [length_mapM h, List.length_take, List.length_drop]
    unfold totalCols at hlen ⊢
    omega

/-- A line that is read has its counters from its columns. -/
theorem parseProcStatCpu_ok {text : Str} {c : CpuCounters} (h : parseProcStatCpu text = .ok c) :
    c.steal = column text stealCol ∧ c.iowait = column text iowaitCol ∧
      c.busy = (busyCols.map (column text)).sum ∧ c.total = ((List.range totalCols).map (column text)).sum := by
  unfold parseProcStatCpu at h
  cases hv : procStatValues text with
  | error e =>
    rw [hv] at h
    cases h
  | ok values =>
    rw [hv] at h
    obtain rfl : c = counters values := (Except.ok.inj h).symm
    have hlen := length_procStatValues hv
    have hcol : column text = fun k => values.getD k 0 := by
      funext k
      rw [column, hv]
      rfl
    have htotal : values.sum = ((List.range totalCols).map fun k => values.getD k 0).sum := by
      rw [← hlen]
      congr 1
      refine List.ext_getElem (by simp) fun k h₁ h₂ => ?_
      simp [h₁]
    rw [hcol]
    exact ⟨rfl, rfl, rfl, htotal⟩

/-- `cpu_pcts` by what elapsed. -/
theorem cpuPcts_eq {prev cur : Str} {p c : CpuCounters} (hp : parseProcStatCpu prev = .ok p)
    (hc : parseProcStatCpu cur = .ok c) : cpuPcts p c =
      if elapsedTotal prev cur ≤ 0 ∨ elapsed prev cur stealCol < 0 ∨ elapsedBusy prev cur < 0 ∨
        elapsed prev cur iowaitCol < 0 then none
      else some ⟨share prev cur (elapsed prev cur stealCol), share prev cur (elapsedBusy prev cur),
        share prev cur (elapsed prev cur iowaitCol)⟩ := by
  obtain ⟨hp₁, hp₂, hp₃, hp₄⟩ := parseProcStatCpu_ok hp
  obtain ⟨hc₁, hc₂, hc₃, hc₄⟩ := parseProcStatCpu_ok hc
  have hsteal : c.steal - p.steal = elapsed prev cur stealCol := by rw [hc₁, hp₁, elapsed]
  have hiowait : c.iowait - p.iowait = elapsed prev cur iowaitCol := by rw [hc₂, hp₂, elapsed]
  have hbusy : c.busy - p.busy = elapsedBusy prev cur := by
    rw [hc₃, hp₃]
    simp only [elapsedBusy, busyCols, elapsed, List.map_cons, List.map_nil, List.sum_cons, List.sum_nil]
    omega
  have htotal : c.total - p.total = elapsedTotal prev cur := by
    rw [hc₄, hp₄]
    simp only [elapsedTotal, totalCols, elapsed, List.range_succ, List.range_zero, List.nil_append, List.cons_append,
      List.map_cons, List.map_nil, List.sum_cons, List.sum_nil]
    omega
  simp only [cpuPcts, hsteal, hiowait, hbusy, htotal, min_lt_iff, or_assoc, share]

/-! ### Shares -/

section
variable {prev cur : Str}

/-- All ticks are those that are looked at, and idle. -/
theorem elapsedTotal_eq : elapsedTotal prev cur = elapsed prev cur stealCol + elapsedBusy prev cur +
    elapsed prev cur iowaitCol + elapsed prev cur idleCol := by
  simp only [elapsedTotal, elapsedBusy, totalCols, busyCols, stealCol, iowaitCol, idleCol, List.range_succ,
    List.range_zero, List.nil_append, List.cons_append, List.map_cons, List.map_nil, List.sum_cons, List.sum_nil]
  omega

theorem share_nonneg (htotal : 0 < elapsedTotal prev cur) {ticks : ℤ} (h : 0 ≤ ticks) : 0 ≤ share prev cur ticks := by
  have hticks : (0 : ℚ) ≤ ticks := by exact_mod_cast h
  have hpos : (0 : ℚ) < elapsedTotal prev cur := by exact_mod_cast htotal
  exact mul_nonneg (div_nonneg hticks hpos.le) (by norm_num)

theorem share_le_iff (htotal : 0 < elapsedTotal prev cur) {ticks : ℤ} : share prev cur ticks ≤ 100 ↔ ticks ≤ elapsedTotal prev cur := by
  have hpos : (0 : ℚ) < elapsedTotal prev cur := by exact_mod_cast htotal
  have hone : share prev cur ticks ≤ 100 ↔ (ticks : ℚ) / elapsedTotal prev cur ≤ 1 := by
    unfold share
    constructor <;> intro h <;> linarith
  rw [hone, div_le_one hpos, Int.cast_le]

theorem share_add (a b : ℤ) : share prev cur a + share prev cur b = share prev cur (a + b) := by
  unfold share
  push_cast
  ring

end

/-! ### Main result -/

/-- **When CPU percentages are percentages.** They are none or shares of the
elapsed ticks that add up to 100 at most, if and only if idle does not go back
under columns that pass. -/
theorem pcts_iff {prev cur : Str} {p c : CpuCounters} (hp : parseProcStatCpu prev = .ok p)
    (hc : parseProcStatCpu cur = .ok c) : Percentages prev cur (cpuPcts p c) ↔ ¬ IdleHidden prev cur := by
  have hsum := @elapsedTotal_eq prev cur
  rw [cpuPcts_eq hp hc]
  constructor
  · rintro hpct ⟨hidle, htotal, hsteal, hbusy, hiowait⟩
    rw [if_neg (by omega)] at hpct
    -- the three shares are that of more ticks than elapsed
    have hle := hpct.sum _ rfl
    rw [share_add, share_add, share_le_iff htotal] at hle
    omega
  · intro hidle
    split
    · rename_i hnone
      refine ⟨by simp, by simp, by simp, by simp, fun hup htotal => ?_⟩
      have hsteal := hup stealCol (by decide)
      have hiowait := hup iowaitCol (by decide)
      have hbusy : 0 ≤ elapsedBusy prev cur := List.sum_nonneg fun x hx => by
        obtain ⟨k, hk, rfl⟩ := List.mem_map.mp hx
        exact hup k ((by decide : ∀ k ∈ busyCols, k < totalCols) k hk)
      omega
    · rename_i hsome
      obtain ⟨htotal, hsteal, hbusy, hiowait⟩ : 0 < elapsedTotal prev cur ∧ 0 ≤ elapsed prev cur stealCol ∧
          0 ≤ elapsedBusy prev cur ∧ 0 ≤ elapsed prev cur iowaitCol := by omega
      have hidle' : 0 ≤ elapsed prev cur idleCol := by
        by_contra hneg
        exact hidle ⟨by omega, htotal, hsteal, hbusy, hiowait⟩
      refine ⟨?_, ?_, ?_, ?_, fun _ _ => rfl⟩
      · rintro p ⟨rfl⟩
        exact ⟨share_nonneg htotal hsteal, (share_le_iff htotal).mpr (by omega)⟩
      · rintro p ⟨rfl⟩
        exact ⟨share_nonneg htotal hbusy, (share_le_iff htotal).mpr (by omega)⟩
      · rintro p ⟨rfl⟩
        exact ⟨share_nonneg htotal hiowait, (share_le_iff htotal).mpr (by omega)⟩
      · rintro p ⟨rfl⟩
        rw [share_add, share_add]
        exact (share_le_iff htotal).mpr (by omega)

/-- Idle goes from 100 to 50 ticks while 60 are busy. -/
def idleBefore : Str := "cpu  0 0 0 100 0 0 0 0".toList

def idleAfter : Str := "cpu  60 0 0 50 0 0 0 0".toList

theorem idleBefore_parses : parseProcStatCpu idleBefore = .ok ⟨0, 100, 0, 0⟩ := by decide +kernel

theorem idleAfter_parses : parseProcStatCpu idleAfter = .ok ⟨0, 110, 60, 0⟩ := by decide +kernel

theorem pcts_idle : Percentages idleBefore idleAfter (cpuPcts ⟨0, 100, 0, 0⟩ ⟨0, 110, 60, 0⟩) ↔
    ¬ IdleHidden idleBefore idleAfter :=
  pcts_iff idleBefore_parses idleAfter_parses

/-- Six times as much as elapsed. -/
theorem six_hundred_percent : ¬ ∀ (prev cur : Str) (p c : CpuCounters), parseProcStatCpu prev = .ok p →
    parseProcStatCpu cur = .ok c → Percentages prev cur (cpuPcts p c) := by
  intro hall
  have hpct := hall _ _ _ _ idleBefore_parses idleAfter_parses
  have hle := (hpct.busy ⟨0, 600, 0⟩ (by decide +kernel)).2
  norm_num at hle

end Perf
end MqResiliency
