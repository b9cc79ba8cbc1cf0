/-
# The report's accounts

The census has each sent message once (`census_sum`), the loss window spans
and counts the messages at risk (`lossWindow_spec`), and evidence only helps: a
later cutover or more messages on the secondary put none at risk
(`atRisk_mono`), and what was received twice stays so (`duplicated_mono`).

Key theorem: `report_accounts`.
-/
import Mathlib.Data.Int.Interval
import MqResiliency.Dr.Reconcile

namespace MqResiliency
namespace Dr

open Py

/-- The seqs at risk. -/
def atRisk (facts : List MessageFacts) : List ℤ := (facts.filter (classify · ∉ safeBuckets)).map (·.seq)

/-- How many messages a census has at risk. -/
def riskSum (census : List (Bucket × ℕ)) : ℕ := ((census.filter (·.1 ∉ safeBuckets)).map Prod.snd).sum

/-! ### Counts -/

/-- Every message is in one bucket. -/
theorem length_eq_counts (facts : List MessageFacts) : facts.length =
    facts.countP (classify · = .confirmed) + facts.countP (classify · = .continued) +
      facts.countP (classify · = .stranded) + facts.countP (classify · = .lostUnprocessed) +
        facts.countP (classify · = .ambiguous) + facts.countP (classify · = .duplicated) := by
  induction facts with
  | nil => rfl
  | cons f facts ih =>
    simp only [List.countP_cons, List.length_cons]
    cases hb : classify f <;> simp <;> omega

theorem length_atRisk_eq_counts (facts : List MessageFacts) : (atRisk facts).length =
    facts.countP (classify · = .stranded) + facts.countP (classify · = .lostUnprocessed) +
      facts.countP (classify · = .ambiguous) + facts.countP (classify · = .duplicated) := by
  have hlen : (atRisk facts).length = facts.countP (classify · ∉ safeBuckets) := by
    rw [atRisk, List.length_map, List.countP_eq_length_filter]
  rw [hlen]
  induction facts with
  | nil => rfl
  | cons f facts ih =>
    have ih := ih (by rw [atRisk, List.length_map, List.countP_eq_length_filter])
    simp only [List.countP_cons]
    cases hb : classify f <;> simp [safeBuckets] at ih ⊢ <;> omega

theorem census_sum (facts : List MessageFacts) : ((census facts).map Prod.snd).sum = facts.length := by
  have hcounts := length_eq_counts facts
  simp only [census, Bucket.all, List.map_cons, List.map_nil, List.sum_cons, List.sum_nil]
  omega

theorem riskSum_census (facts : List MessageFacts) : riskSum (census facts) = (atRisk facts).length := by
  have hcounts := length_atRisk_eq_counts facts
  simp only [riskSum, census, Bucket.all, safeBuckets, List.map_cons, List.map_nil, List.mem_cons,
    List.not_mem_nil, or_false, reduceCtorEq, or_self, not_true_eq_false, not_false_eq_true, decide_false,
    decide_true, List.filter_cons, List.filter_nil, or_true, if_true, if_false, Bool.false_eq_true,
    List.sum_cons, List.sum_nil]
  omega

/-! ### The window -/

/-- Distinct integers between two bounds. -/
theorem length_le_of_bounds {ns : List ℤ} (hns : ns.Nodup) {lo hi : ℤ} (h : ∀ n ∈ ns, lo ≤ n ∧ n ≤ hi)
    (hle : lo ≤ hi) : (ns.length : ℤ) ≤ hi - lo + 1 := by
  have hsub : ns.toFinset ⊆ Finset.Icc lo hi := fun n hn => Finset.mem_Icc.mpr (h n (List.mem_toFinset.mp hn))
  have hcard : ns.length ≤ (Finset.Icc lo hi).card := by
    rw [← List.toFinset_card_of_nodup hns]
    exact Finset.card_le_card hsub
  rw [Int.card_Icc] at hcard
  omega

/-- **The loss window** spans the messages at risk, which are sent, and counts them. -/
theorem lossWindow_spec {facts : List MessageFacts} {lo hi : ℤ} {n : ℕ} (h : lossWindow facts = some (lo, hi, n)) :
    lo ∈ atRisk facts ∧ hi ∈ atRisk facts ∧ (∀ s ∈ atRisk facts, lo ≤ s ∧ s ≤ hi) ∧ n = (atRisk facts).length := by
  unfold lossWindow at h
  rw [show (facts.filter (classify · ∉ safeBuckets)).map (·.seq) = atRisk facts from rfl] at h
  cases hrisk : atRisk facts with
  | nil =>
    rw [hrisk] at h
    exact absurd h (by simp)
  | cons s ss =>
    rw [hrisk] at h
    obtain ⟨rfl, rfl, rfl⟩ : ss.foldl min s = lo ∧ ss.foldl max s = hi ∧ ss.length + 1 = n := by simpa using h
    obtain ⟨hlo, hmin⟩ := List.min?_eq_some_iff.mp (List.min?_cons' : (s :: ss).min? = _)
    obtain ⟨hhi, hmax⟩ := List.max?_eq_some_iff.mp (List.max?_cons' : (s :: ss).max? = _)
    exact ⟨hlo, hhi, fun t ht => ⟨hmin t ht, hmax t ht⟩, rfl⟩

theorem lossWindow_eq_none {facts : List MessageFacts} : lossWindow facts = none ↔ atRisk facts = [] := by
  unfold lossWindow
  rw [show (facts.filter (classify · ∉ safeBuckets)).map (·.seq) = atRisk facts from rfl]
  cases atRisk facts with
  | nil => simp
  | cons s ss => simp

/-! ### Reconciled messages -/

section
variable {app svc : Ledger} {sec pri : Finset ℤ} {cut : Ts}

theorem length_reconcile : (reconcile app svc sec pri cut).length = app.sentSeqs.card := by
  simp [reconcile]

/-- A message is at risk if it was received twice, or nothing says that it is safe. -/
theorem classify_not_mem_safe {f : MessageFacts} :
    classify f ∉ safeBuckets ↔ 2 ≤ f.svcReceived ∨ f.appConfirmed = false ∧ f.onSecondary = false := by
  unfold classify
  split
  · rename_i htwice
    simp [safeBuckets, htwice]
  · rename_i honce
    cases hconf : f.appConfirmed
    · cases hsec : f.onSecondary
      · simp only [Bool.false_eq_true, if_false]
        split
        · simp [safeBuckets]
        · split <;> simp [safeBuckets]
      · simp [safeBuckets, honce]
    · simp [safeBuckets, honce]

theorem mem_atRisk_reconcile {n : ℤ} : n ∈ atRisk (reconcile app svc sec pri cut) ↔ n ∈ app.sentSeqs ∧
    (2 ≤ svc.svcReceiveCounts n ∨ n ∉ app.confirmedSeqs (some cut) ∧ n ∉ sec) := by
  have hmem : n ∈ atRisk (reconcile app svc sec pri cut) ↔
      ∃ f ∈ reconcile app svc sec pri cut, classify f ∉ safeBuckets ∧ f.seq = n := by
    simp [atRisk, and_assoc]
  rw [hmem]
  constructor
  · intro ⟨f, hf, hrisk, hn⟩
    obtain ⟨m, hm, rfl⟩ := mem_reconcile.mp hf
    obtain rfl : m = n := hn
    have hwhy := classify_not_mem_safe.mp hrisk
    exact ⟨hm, by simpa [factsOf] using hwhy⟩
  · intro ⟨hn, hwhy⟩
    refine ⟨factsOf app svc sec pri cut n, mem_reconcile.mpr ⟨n, hn, rfl⟩, ?_, rfl⟩
    exact classify_not_mem_safe.mpr (by simpa [factsOf] using hwhy)

theorem nodup_atRisk : (atRisk (reconcile app svc sec pri cut)).Nodup := by
  have hseqs : ((reconcile app svc sec pri cut).map (·.seq)).Nodup := by
    have hid : (reconcile app svc sec pri cut).map (·.seq) = app.sentSeqs.sort (· ≤ ·) := by
      simp [reconcile, factsOf, Function.comp_def]
    rw [hid]
    exact Finset.sort_nodup _ _
  exact hseqs.sublist (List.Sublist.map _ List.filter_sublist)

theorem Ts.le_trans {a b c : Ts} (hab : a.le b = true) (hbc : b.le c = true) : a.le c = true := by
  cases a <;> cases b <;> cases c <;> simp_all [Ts.le]
  exact hab.trans hbc

/-- Nothing comes to be at risk by a later cutover or by more on the secondary. -/
theorem atRisk_mono {sec' : Finset ℤ} {cut' : Ts} (hsec : sec ⊆ sec') (hcut : cut = cut' ∨ cut.le cut' = true) :
    atRisk (reconcile app svc sec' pri cut') ⊆ atRisk (reconcile app svc sec pri cut) := by
  intro n hn
  obtain ⟨hsent, hwhy⟩ := mem_atRisk_reconcile.mp hn
  refine mem_atRisk_reconcile.mpr ⟨hsent, hwhy.imp_right fun ⟨hconf, hnot⟩ => ?_⟩
  refine ⟨fun hin => hconf ?_, fun hin => hnot (hsec hin)⟩
  obtain ⟨e, he, hevent, hseq, hts⟩ := Ledger.mem_confirmedSeqs.mp hin
  refine Ledger.mem_confirmedSeqs.mpr ⟨e, he, hevent, hseq, ?_⟩
  have hts : e.ts.le cut = true := by simpa using hts
  have hts' : e.ts.le cut' = true := by
    rcases hcut with rfl | hle
    · exact hts
    · exact Ts.le_trans hts hle
  simpa using hts'

/-- What was received twice stays a duplicate, however often it is received. -/
theorem duplicated_mono {svc' : Ledger} {es₁ es₂ : List LedgerEntry} {e : LedgerEntry}
    (hsvc : svc.entries = es₁ ++ es₂) (hsvc' : svc'.entries = es₁ ++ e :: es₂) {n : ℤ}
    (h : classify (factsOf app svc sec pri cut n) = .duplicated) :
    classify (factsOf app svc' sec pri cut n) = .duplicated := by
  have hiff : ∀ f : MessageFacts, classify f = .duplicated ↔ 2 ≤ f.svcReceived := by
    intro f
    unfold classify
    split
    · rename_i htwice
      simp [htwice]
    · rename_i honce
      simp only [honce, iff_false]
      split <;> (try split) <;> (try split) <;> (try split) <;> simp
  have hcounts : svc.svcReceiveCounts n ≤ svc'.svcReceiveCounts n := by
    rw [Ledger.svcReceiveCounts_eq, Ledger.svcReceiveCounts_eq]
    refine List.Sublist.countP_le (List.Sublist.filter _ ?_)
    rw [hsvc, hsvc']
    exact (List.sublist_cons_self e es₂).append_left es₁
  rw [hiff] at h ⊢
  exact h.trans hcounts

end

/-- **The report's accounts are conserved, and monotone in the evidence.** -/
theorem report_accounts (app svc : Ledger) (sec pri : Finset ℤ) (cut : Ts) (scenarioId arm : Str)
    (peakExposure : ℕ) (exposureAtFault : Option ℕ) (rtoSeconds : Option Ts)
    (interventionRequired integrityAnomaly diagnosticsCaptured : Bool) :
    let facts := reconcile app svc sec pri cut
    let report := buildReport scenarioId arm facts peakExposure exposureAtFault rtoSeconds interventionRequired
      integrityAnomaly diagnosticsCaptured
    (report.census.map Prod.snd).sum = app.sentSeqs.card ∧
    (∀ lo hi n, report.window = some (lo, hi, n) → n = riskSum report.census ∧ lo ∈ app.sentSeqs ∧
      hi ∈ app.sentSeqs ∧ (∀ s ∈ atRisk facts, lo ≤ s ∧ s ≤ hi) ∧ (n : ℤ) ≤ hi - lo + 1) ∧
    (report.rpoZero = true ↔ riskSum report.census = 0) ∧
    (∀ sec', sec ⊆ sec' → atRisk (reconcile app svc sec' pri cut) ⊆ atRisk facts) ∧
    (∀ cut', cut.le cut' = true → atRisk (reconcile app svc sec pri cut') ⊆ atRisk facts) ∧
    ∀ (svc' : Ledger) (es₁ es₂ : List LedgerEntry) (e : LedgerEntry), e.event = .received →
      svc.entries = es₁ ++ es₂ → svc'.entries = es₁ ++ e :: es₂ →
        ∀ f ∈ facts, ∀ f' ∈ reconcile app svc' sec pri cut, f'.seq = f.seq →
          classify f = .duplicated → classify f' = .duplicated := by
  intro facts report
  have hsent : ∀ s ∈ atRisk facts, s ∈ app.sentSeqs := fun s hs => (mem_atRisk_reconcile.mp hs).1
  refine ⟨?_, fun lo hi n hwindow => ?_, ?_, fun sec' hsec => atRisk_mono hsec (.inl rfl),
    fun cut' hcut => atRisk_mono subset_rfl (.inr hcut),
    fun svc' es₁ es₂ e _ hsvc hsvc' f hf f' hf' hseq h => ?_⟩
  · exact (census_sum facts).trans length_reconcile
  · obtain ⟨hlo, hhi, hbounds, hn⟩ := lossWindow_spec hwindow
    have hlen := length_le_of_bounds nodup_atRisk hbounds (hbounds lo hlo).2
    refine ⟨hn.trans (riskSum_census facts).symm, hsent lo hlo, hsent hi hhi, hbounds, ?_⟩
    rw [hn]
    exact hlen
  · have hzero : report.rpoZero = true ↔ lossWindow facts = none := Option.isNone_iff_eq_none
    have hsum : riskSum report.census = (atRisk facts).length := riskSum_census facts
    rw [hzero, hsum, lossWindow_eq_none, List.length_eq_zero_iff]
  · obtain ⟨n, -, rfl⟩ := mem_reconcile.mp hf
    obtain ⟨m, -, rfl⟩ := mem_reconcile.mp hf'
    obtain rfl : m = n := hseq
    exact duplicated_mono hsvc hsvc' h

end Dr
end MqResiliency
