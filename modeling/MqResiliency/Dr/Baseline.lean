/-
# The self-correctness baseline

`mq-dr-baseline` (`dr_baseline.py`) on the two ledgers of a run without
faults. Its law: every message the app sent is confirmed, and SVC received
each exactly once (`Agree`).

What passes is every pair of ledgers whose sent messages are confirmed, at an
ordered timestamp, and received at most once (`baseline_eq_ok`): a message
that was never received is bucketed by its confirmation alone.
`baseline_exact_iff` says on which ledgers the two come to the same.
-/
import MqResiliency.Dr.Reconcile

namespace MqResiliency
namespace Dr

open Py

/-- `main`, on the ledgers it read: without a fault everything is present. -/
def baseline (app svc : Ledger) : Except SelfCorrectnessError ScenarioReport :=
  let facts := reconcile app svc app.sentSeqs ∅ .posInf
  match assertSelfCorrect facts with
  | .error e => .error e
  | .ok _ => .ok (buildReport "BASELINE".toList "msgpath".toList facts (exposure app none))

/-- Each sent message has a CONFIRMED entry and exactly one RECEIVED entry. -/
def Agree (app svc : Ledger) : Prop :=
  ∀ e ∈ app.entries, e.event = .sent →
    (∃ c ∈ app.entries, c.event = .confirmed ∧ c.seq = e.seq) ∧
      svc.entries.countP (fun r => r.event = .received ∧ r.seq = e.seq) = 1

/-- The baseline certifies the ledgers that agree, and refuses the others. -/
def Exact (app svc : Ledger) : Prop :=
  ((∃ r, baseline app svc = .ok r) ↔ Agree app svc) ∧
    ((∃ e, baseline app svc = .error e) ↔ ¬ Agree app svc)

/-- Every sent message is confirmed at an ordered timestamp and none is
received twice, but one is not received at all. -/
def Unreceived (app svc : Ledger) : Prop :=
  (∀ n ∈ app.sentSeqs, n ∈ app.confirmedSeqs (some .posInf) ∧ svc.svcReceiveCounts n ≤ 1) ∧
    ∃ n ∈ app.sentSeqs, svc.svcReceiveCounts n = 0

/-- Every sent message is confirmed and received once, but one is confirmed
at NaN timestamps only. -/
def Unordered (app svc : Ledger) : Prop :=
  (∀ n ∈ app.sentSeqs, n ∈ app.confirmedSeqs none ∧ svc.svcReceiveCounts n = 1) ∧
    ∃ n ∈ app.sentSeqs, n ∉ app.confirmedSeqs (some .posInf)

/-- What passes. -/
theorem baseline_eq_ok {app svc : Ledger} : (∃ r, baseline app svc = .ok r) ↔
    ∀ n ∈ app.sentSeqs, n ∈ app.confirmedSeqs (some .posInf) ∧ svc.svcReceiveCounts n ≤ 1 := by
  have hall : assertSelfCorrect (reconcile app svc app.sentSeqs ∅ .posInf) = .ok () ↔
      ∀ n ∈ app.sentSeqs, n ∈ app.confirmedSeqs (some .posInf) ∧ svc.svcReceiveCounts n ≤ 1 := by
    rw [assertSelfCorrect_eq_ok]
    constructor
    · intro h n hn
      simpa [factsOf] using classify_eq_confirmed.mp (h _ (mem_reconcile.mpr ⟨n, hn, rfl⟩))
    · intro h f hf
      obtain ⟨n, hn, rfl⟩ := mem_reconcile.mp hf
      exact classify_eq_confirmed.mpr (by simpa [factsOf] using h n hn)
  rw [← hall, baseline]
  cases assertSelfCorrect (reconcile app svc app.sentSeqs ∅ .posInf) <;> simp

theorem agree_iff {app svc : Ledger} : Agree app svc ↔
    ∀ n ∈ app.sentSeqs, n ∈ app.confirmedSeqs none ∧ svc.svcReceiveCounts n = 1 := by
  have hcount (n : ℤ) : svc.svcReceiveCounts n =
      svc.entries.countP (fun r => r.event = .received ∧ r.seq = n) := by
    rw [Ledger.svcReceiveCounts_eq, Ledger.ofEvent, List.countP_filter]
    simp only [Bool.decide_and, Bool.and_comm]
  have hconf (n : ℤ) : n ∈ app.confirmedSeqs none ↔
      ∃ c ∈ app.entries, c.event = .confirmed ∧ c.seq = n := by
    simp [Ledger.mem_confirmedSeqs]
  simp only [Agree, hcount, hconf, Ledger.mem_sentSeqs]
  constructor
  · rintro h n ⟨e, he, hk, rfl⟩
    exact h e he hk
  · exact fun h e he hk => h e.seq ⟨e, he, hk, rfl⟩

theorem mem_confirmedSeqs_none {app : Ledger} {t : Ts} {n : ℤ} (h : n ∈ app.confirmedSeqs (some t)) :
    n ∈ app.confirmedSeqs none := by
  obtain ⟨e, he, hk, hn, -⟩ := Ledger.mem_confirmedSeqs.mp h
  exact Ledger.mem_confirmedSeqs.mpr ⟨e, he, hk, hn, rfl⟩

/-- An outcome that is no success is an error. -/
theorem baseline_error_iff {app svc : Ledger} :
    (∃ e, baseline app svc = .error e) ↔ ¬ ∃ r, baseline app svc = .ok r := by
  cases baseline app svc <;> simp

/-- **When the baseline is exact**: unless a sent message was never received,
or was confirmed at no ordered time, and nothing else is amiss. -/
theorem baseline_exact_iff (app svc : Ledger) :
    Exact app svc ↔ ¬ Unreceived app svc ∧ ¬ Unordered app svc := by
  have hiff : Exact app svc ↔ ((∃ r, baseline app svc = .ok r) ↔ Agree app svc) := by
    rw [Exact, baseline_error_iff]
    exact ⟨fun h => h.1, fun h => ⟨h, not_congr h⟩⟩
  rw [hiff, baseline_eq_ok, agree_iff]
  constructor
  · intro h
    refine ⟨fun ⟨hall, n, hn, h0⟩ => ?_, fun ⟨hall, n, hn, hc⟩ => hc (h.mpr hall n hn).1⟩
    have h1 := (h.mp hall n hn).2
    omega
  · rintro ⟨hr, ho⟩
    constructor
    · intro h n hn
      refine ⟨mem_confirmedSeqs_none (h n hn).1, ?_⟩
      by_contra h1
      have hle := (h n hn).2
      exact hr ⟨h, n, hn, by omega⟩
    · intro h n hn
      refine ⟨?_, (h n hn).2.le⟩
      by_contra hc
      exact ho ⟨h, n, hn, hc⟩

/-- A message that was sent and confirmed, and that SVC never received,
passes. -/
theorem baseline_certifies_unreceived :
    let app : Ledger := ⟨[⟨.sent, 1, "u1".toList, .fin 1⟩, ⟨.confirmed, 1, "u1".toList, .fin 2⟩]⟩
    let svc : Ledger := ⟨[]⟩
    (∃ r, baseline app svc = .ok r) ∧ ¬ Agree app svc := by
  intro app svc
  constructor
  · rw [baseline_eq_ok]
    decide
  · rw [agree_iff]
    decide

end Dr
end MqResiliency
