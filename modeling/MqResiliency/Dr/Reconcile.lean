/-
# Reconciling the two ledgers

Per-message facts from the app's and the Watcher's ledgers (`reconcile.py`,
`model.py`), their six buckets (`classifier.py`), the report
(`report.py`) and the exposure gauge (`exposure.py`).
-/
import Mathlib.Data.Finset.Sort
import MqResiliency.Dr.Ledger

namespace MqResiliency
namespace Dr

open Py

/-! ### Facts and buckets -/

inductive Bucket where
  | confirmed
  | continued
  | stranded
  | lostUnprocessed
  | ambiguous
  | duplicated
deriving DecidableEq

/-- `list(Bucket)`. -/
def Bucket.all : List Bucket :=
  [.confirmed, .continued, .stranded, .lostUnprocessed, .ambiguous, .duplicated]

structure MessageFacts where
  seq : ℤ
  uuid : Str
  appConfirmed : Bool
  svcReceived : ℕ
  svcReplied : Bool
  onSecondary : Bool
  onPrimaryDisk : Bool
deriving DecidableEq

/-- First match wins. -/
def classify (f : MessageFacts) : Bucket :=
  if 2 ≤ f.svcReceived then .duplicated
  else if f.appConfirmed then .confirmed
  else if f.onSecondary then .continued
  else if f.svcReceived = 1 then .ambiguous
  else if f.onPrimaryDisk then .stranded
  else .lostUnprocessed

/-- What is known of one seq. -/
def factsOf (app svc : Ledger) (secondaryPresent primaryDiskPresent : Finset ℤ) (cutoverTs : Ts)
    (seq : ℤ) : MessageFacts where
  seq := seq
  uuid := (app.uuidOf seq).getD []
  appConfirmed := seq ∈ app.confirmedSeqs (some cutoverTs)
  svcReceived := svc.svcReceiveCounts seq
  svcReplied := seq ∈ svc.svcReplied
  onSecondary := seq ∈ secondaryPresent
  onPrimaryDisk := seq ∈ primaryDiskPresent

def reconcile (app svc : Ledger) (secondaryPresent primaryDiskPresent : Finset ℤ)
    (cutoverTs : Ts) : List MessageFacts :=
  (app.sentSeqs.sort (· ≤ ·)).map (factsOf app svc secondaryPresent primaryDiskPresent cutoverTs)

/-! ### Report -/

/-- `SAFE_BUCKETS`. -/
def safeBuckets : List Bucket := [.confirmed, .continued]

def census (facts : List MessageFacts) : List (Bucket × ℕ) :=
  Bucket.all.map fun b => (b, facts.countP (classify · = b))

/-- The seqs at risk: the lowest, the highest and how many. -/
def lossWindow (facts : List MessageFacts) : Option (ℤ × ℤ × ℕ) :=
  match (facts.filter (classify · ∉ safeBuckets)).map (·.seq) with
  | [] => none
  | s :: ss => some (ss.foldl min s, ss.foldl max s, ss.length + 1)

structure SelfCorrectnessError where
  text : Str
deriving DecidableEq

def selfCorrectnessViolations (facts : List MessageFacts) : List MessageFacts :=
  facts.filter (classify · ≠ .confirmed)

def assertSelfCorrect (facts : List MessageFacts) : Except SelfCorrectnessError Unit :=
  match selfCorrectnessViolations facts with
  | [] => .ok ()
  | bad =>
    -- a seq read from a ledger is within `str`'s limit
    let seqs := ", ".toList.intercalate (bad.map fun f => (str f.seq).getD [])
    .error ⟨"no-fault baseline has ".toList ++ Nat.toDigits 10 bad.length ++
      " non-confirmed message(s): seq ".toList ++ seqs⟩

structure ScenarioReport where
  scenarioId : Str
  arm : Str
  census : List (Bucket × ℕ)
  window : Option (ℤ × ℤ × ℕ)
  peakExposure : ℕ
  exposureAtFault : Option ℕ
  rtoSeconds : Option Ts
  interventionRequired : Bool
  integrityAnomaly : Bool
  diagnosticsCaptured : Bool

/-- `rpo_zero`. -/
def ScenarioReport.rpoZero (r : ScenarioReport) : Bool := r.window.isNone

def buildReport (scenarioId arm : Str) (facts : List MessageFacts) (peakExposure : ℕ)
    (exposureAtFault : Option ℕ := none) (rtoSeconds : Option Ts := none)
    (interventionRequired integrityAnomaly diagnosticsCaptured : Bool := false) : ScenarioReport where
  scenarioId := scenarioId
  arm := arm
  census := Dr.census facts
  window := lossWindow facts
  peakExposure := peakExposure
  exposureAtFault := exposureAtFault
  rtoSeconds := rtoSeconds
  interventionRequired := interventionRequired
  integrityAnomaly := integrityAnomaly
  diagnosticsCaptured := diagnosticsCaptured

/-! ### Exposure -/

/-- Sent at or before `atTs`, and not confirmed by then; `none` is any time. -/
def unresolvedSeqs (app : Ledger) (atTs : Option Ts) : Finset ℤ :=
  (((app.ofEvent .sent).filter fun e => atTs.all e.ts.le).map (·.seq)).toFinset \
    app.confirmedSeqs atTs

def exposure (app : Ledger) (atTs : Option Ts) : ℕ := (unresolvedSeqs app atTs).card

/-! ### What is confirmed -/

/-- Confirmed is: confirmed by the app, and not received twice. -/
theorem classify_eq_confirmed {f : MessageFacts} :
    classify f = .confirmed ↔ f.appConfirmed = true ∧ f.svcReceived ≤ 1 := by
  unfold classify
  split
  · simp only [reduceCtorEq, false_iff, not_and, not_le]
    omega
  · rename_i h
    have hle : f.svcReceived ≤ 1 := by omega
    by_cases hc : f.appConfirmed
    · simp [hc, hle]
    · simp only [hc, Bool.false_eq_true, if_false, false_and, iff_false]
      split <;> (try split) <;> (try split) <;> simp

/-- The facts pass exactly when every one of them is confirmed. -/
theorem assertSelfCorrect_eq_ok {facts : List MessageFacts} :
    assertSelfCorrect facts = .ok () ↔ ∀ f ∈ facts, classify f = .confirmed := by
  have h : selfCorrectnessViolations facts = [] ↔ ∀ f ∈ facts, classify f = .confirmed := by
    simp [selfCorrectnessViolations, List.filter_eq_nil_iff]
  rw [← h, assertSelfCorrect]
  cases selfCorrectnessViolations facts <;> simp

theorem mem_reconcile {app svc : Ledger} {sec pri : Finset ℤ} {cut : Ts} {f : MessageFacts} :
    f ∈ reconcile app svc sec pri cut ↔ ∃ n ∈ app.sentSeqs, factsOf app svc sec pri cut n = f := by
  simp [reconcile]

end Dr
end MqResiliency
