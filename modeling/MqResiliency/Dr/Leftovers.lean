/-
# Leftovers of an earlier run

Requests are persistent and every run numbers them from 1, so what an earlier
run left behind reaches the same responder, and its replies the same app: the
ledgers hold entries of the same seq with another uuid (`Leftovers`).

The folds and the reconciler tell messages by their seq alone. So leftovers
leave the facts as they are only where they say nothing of a seq that this run
sent, or nothing that its own entries do not say (`reconcile_eq_iff`).
-/
import MqResiliency.Dr.Reconcile

namespace MqResiliency
namespace Dr

open Py

/-! ### Merges -/

/-- The third list is a merge of the first two, each in its order. -/
inductive Merge {α : Type} : List α → List α → List α → Prop where
  | nil : Merge [] [] []
  | left {l m k : List α} (a : α) : Merge l m k → Merge (a :: l) m (a :: k)
  | right {l m k : List α} (a : α) : Merge l m k → Merge l (a :: m) (a :: k)

namespace Merge

variable {α : Type} {l m k : List α}

theorem mem_iff (h : Merge l m k) {a : α} : a ∈ k ↔ a ∈ l ∨ a ∈ m := by
  induction h with
  | nil => simp
  | left b _ ih =>
    rw [List.mem_cons, List.mem_cons, ih, or_assoc]
  | right b _ ih =>
    rw [List.mem_cons, List.mem_cons, ih]
    tauto

theorem countP_eq (h : Merge l m k) (p : α → Bool) : k.countP p = l.countP p + m.countP p := by
  induction h with
  | nil => rfl
  | left b _ ih =>
    rw [List.countP_cons, List.countP_cons, ih]
    omega
  | right b _ ih =>
    rw [List.countP_cons, List.countP_cons, ih]
    omega

end Merge

/-! ### Leftovers -/

/-- The entry is of no message that this run sent. -/
def Foreign (app : Ledger) (e : LedgerEntry) : Prop :=
  ∀ s ∈ app.entries, s.event = .sent → s.seq = e.seq → s.uuid ≠ e.uuid

/-- The ledgers of a run, and the same with leftovers in between. -/
structure Leftovers (app svc app' svc' : Ledger) (confirmed served : List LedgerEntry) : Prop where
  inApp : Merge app.entries confirmed app'.entries
  inSvc : Merge svc.entries served svc'.entries
  confirms : ∀ e ∈ confirmed, e.event = .confirmed ∧ Foreign app e
  serves : ∀ e ∈ served, (e.event = .received ∨ e.event = .replied) ∧ Foreign app e

/-- The last entry of a seq. -/
def Ledger.lastOf (l : Ledger) (n : ℤ) : Option LedgerEntry := (l.entries.filter (·.seq = n)).getLast?

/-- The leftovers say nothing new of what this run sent. -/
structure Silent (app svc app' : Ledger) (confirmed served : List LedgerEntry) (cut : Ts) : Prop where
  received : ∀ e ∈ served, e.event = .received → e.seq ∉ app.sentSeqs
  replied : ∀ e ∈ served, e.event = .replied → e.seq ∈ app.sentSeqs →
    ∃ r ∈ svc.entries, r.event = .replied ∧ r.seq = e.seq
  confirmed : ∀ e ∈ confirmed, e.ts.le cut = true → e.seq ∈ app.sentSeqs →
    ∃ c ∈ app.entries, c.event = .confirmed ∧ c.seq = e.seq ∧ c.ts.le cut = true
  last : ∀ n ∈ app.sentSeqs, (app'.lastOf n).map (·.uuid) = (app.lastOf n).map (·.uuid)

theorem Ledger.uuidOf_eq (l : Ledger) (n : ℤ) : l.uuidOf n = (l.lastOf n).map (·.uuid) := by
  unfold uuidOf lastOf
  induction l.entries using List.reverseRecOn with
  | nil => rfl
  | append_singleton es e ih =>
    rw [List.foldl_concat, List.filter_append, List.filter_singleton]
    by_cases hn : e.seq = n
    · subst hn
      simp
    · have hne : n ≠ e.seq := fun heq => hn heq.symm
      rw [Function.update_of_ne hne, ih]
      simp [hn]

theorem Ledger.mem_svcReplied {l : Ledger} {n : ℤ} :
    n ∈ l.svcReplied ↔ ∃ e ∈ l.entries, e.event = .replied ∧ e.seq = n := by
  simp [svcReplied, mem_ofEvent, and_assoc]

section
variable {app svc app' svc' : Ledger} {confirmed served : List LedgerEntry}
  (h : Leftovers app svc app' svc' confirmed served)
include h

/-- Leftovers send nothing. -/
theorem Leftovers.sentSeqs_eq : app'.sentSeqs = app.sentSeqs := by
  ext n
  rw [Ledger.mem_sentSeqs, Ledger.mem_sentSeqs]
  constructor
  · intro ⟨e, he, hevent, hseq⟩
    rcases h.inApp.mem_iff.mp he with he | he
    · exact ⟨e, he, hevent, hseq⟩
    · have hconf := (h.confirms e he).1
      rw [hevent] at hconf
      exact absurd hconf (by simp)
  · intro ⟨e, he, hrest⟩
    exact ⟨e, h.inApp.mem_iff.mpr (.inl he), hrest⟩

theorem Leftovers.svcReceiveCounts_eq_iff (n : ℤ) : svc'.svcReceiveCounts n = svc.svcReceiveCounts n ↔
    ∀ e ∈ served, e.event = .received → e.seq ≠ n := by
  have hcount : ∀ l : Ledger, l.svcReceiveCounts n =
      l.entries.countP fun e => decide (e.seq = n) && decide (e.event = .received) := fun l => by
    rw [Ledger.svcReceiveCounts_eq, Ledger.ofEvent, List.countP_filter]
  have hzero : svc'.svcReceiveCounts n = svc.svcReceiveCounts n ↔
      served.countP (fun e => decide (e.seq = n) && decide (e.event = .received)) = 0 := by
    rw [hcount, hcount, h.inSvc.countP_eq]
    omega
  rw [hzero, List.countP_eq_zero]
  refine forall₂_congr fun e _ => ?_
  simp only [Bool.and_eq_true, decide_eq_true_eq]
  tauto

theorem Leftovers.mem_svcReplied_iff (n : ℤ) : (n ∈ svc'.svcReplied ↔ n ∈ svc.svcReplied) ↔
    ∀ e ∈ served, e.event = .replied → e.seq = n → n ∈ svc.svcReplied := by
  have hmem : n ∈ svc'.svcReplied ↔ n ∈ svc.svcReplied ∨ ∃ e ∈ served, e.event = .replied ∧ e.seq = n := by
    simp only [Ledger.mem_svcReplied, h.inSvc.mem_iff, or_and_right, exists_or]
  rw [hmem]
  constructor
  · intro hiff e he hevent hseq
    exact hiff.mp (.inr ⟨e, he, hevent, hseq⟩)
  · intro hold
    refine ⟨fun hnew => ?_, .inl⟩
    rcases hnew with hin | ⟨e, he, hevent, hseq⟩
    · exact hin
    · exact hold e he hevent hseq

theorem Leftovers.mem_confirmedSeqs_iff (n : ℤ) (cut : Ts) :
    (n ∈ app'.confirmedSeqs (some cut) ↔ n ∈ app.confirmedSeqs (some cut)) ↔
      ∀ e ∈ confirmed, e.ts.le cut = true → e.seq = n → n ∈ app.confirmedSeqs (some cut) := by
  have hmem : n ∈ app'.confirmedSeqs (some cut) ↔ n ∈ app.confirmedSeqs (some cut) ∨
      ∃ e ∈ confirmed, e.ts.le cut = true ∧ e.seq = n := by
    rw [Ledger.mem_confirmedSeqs, Ledger.mem_confirmedSeqs]
    constructor
    · intro ⟨e, he, hevent, hseq, hts⟩
      rcases h.inApp.mem_iff.mp he with he | he
      · exact .inl ⟨e, he, hevent, hseq, hts⟩
      · exact .inr ⟨e, he, by simpa using hts, hseq⟩
    · rintro (⟨e, he, hrest⟩ | ⟨e, he, hts, hseq⟩)
      · exact ⟨e, h.inApp.mem_iff.mpr (.inl he), hrest⟩
      · exact ⟨e, h.inApp.mem_iff.mpr (.inr he), (h.confirms e he).1, hseq, by simpa using hts⟩
  rw [hmem]
  constructor
  · intro hiff e he hts hseq
    exact hiff.mp (.inr ⟨e, he, hts, hseq⟩)
  · intro hold
    refine ⟨fun hnew => ?_, .inl⟩
    rcases hnew with hin | ⟨e, he, hts, hseq⟩
    · exact hin
    · exact hold e he hts hseq

/-- A seq that was sent has a last entry. -/
theorem Leftovers.uuid_eq_iff {n : ℤ} (hn : n ∈ app.sentSeqs) :
    (app'.uuidOf n).getD [] = (app.uuidOf n).getD [] ↔
      (app'.lastOf n).map (·.uuid) = (app.lastOf n).map (·.uuid) := by
  obtain ⟨s, hs, -, hseq⟩ := Ledger.mem_sentSeqs.mp hn
  have hsome : ∀ l : Ledger, s ∈ l.entries → ∃ e, l.lastOf n = some e := fun l hl => by
    have hne : l.entries.filter (·.seq = n) ≠ [] :=
      List.ne_nil_of_mem (List.mem_filter.mpr ⟨hl, by simpa using hseq⟩)
    exact ⟨_, List.getLast?_eq_some_getLast hne⟩
  obtain ⟨e, he⟩ := hsome app hs
  obtain ⟨e', he'⟩ := hsome app' (h.inApp.mem_iff.mpr (.inl hs))
  rw [Ledger.uuidOf_eq, Ledger.uuidOf_eq, he, he']
  simp

/-- **Leftovers change no fact** just when they are silent of what this run sent. -/
theorem reconcile_eq_iff (sec pri : Finset ℤ) (cut : Ts) :
    reconcile app' svc' sec pri cut = reconcile app svc sec pri cut ↔
      Silent app svc app' confirmed served cut := by
  have hfacts : reconcile app' svc' sec pri cut = reconcile app svc sec pri cut ↔
      ∀ n ∈ app.sentSeqs, factsOf app' svc' sec pri cut n = factsOf app svc sec pri cut n := by
    rw [reconcile, reconcile, h.sentSeqs_eq, List.map_inj_left]
    simp
  have hone : ∀ n ∈ app.sentSeqs, (factsOf app' svc' sec pri cut n = factsOf app svc sec pri cut n ↔
      (app'.lastOf n).map (·.uuid) = (app.lastOf n).map (·.uuid) ∧
      (∀ e ∈ confirmed, e.ts.le cut = true → e.seq = n → n ∈ app.confirmedSeqs (some cut)) ∧
      (∀ e ∈ served, e.event = .received → e.seq ≠ n) ∧
      ∀ e ∈ served, e.event = .replied → e.seq = n → n ∈ svc.svcReplied) := by
    intro n hn
    rw [← h.uuid_eq_iff hn, ← h.mem_confirmedSeqs_iff, ← h.svcReceiveCounts_eq_iff, ← h.mem_svcReplied_iff]
    simp [factsOf]
  rw [hfacts]
  constructor
  · intro hall
    have hn := fun n hin => (hone n hin).mp (hall n hin)
    refine ⟨fun e he hevent hin => ?_, fun e he hevent hin => ?_, fun e he hts hin => ?_, fun n hin => (hn n hin).1⟩
    · exact (hn e.seq hin).2.2.1 e he hevent rfl
    · exact Ledger.mem_svcReplied.mp ((hn e.seq hin).2.2.2 e he hevent rfl)
    · obtain ⟨c, hc, hevent, hseq, hle⟩ := Ledger.mem_confirmedSeqs.mp ((hn e.seq hin).2.1 e he hts rfl)
      exact ⟨c, hc, hevent, hseq, by simpa using hle⟩
  · intro hsilent n hin
    refine (hone n hin).mpr ⟨hsilent.last n hin, fun e he hts hseq => ?_, fun e he hevent hseq => ?_,
      fun e he hevent hseq => ?_⟩
    · obtain ⟨c, hc, hevent, hseq', hle⟩ := hsilent.confirmed e he hts (hseq ▸ hin)
      exact Ledger.mem_confirmedSeqs.mpr ⟨c, hc, hevent, hseq'.trans hseq, by simpa using hle⟩
    · exact hsilent.received e he hevent (hseq ▸ hin)
    · obtain ⟨r, hr, hevent', hseq'⟩ := hsilent.replied e he hevent (hseq ▸ hin)
      exact Ledger.mem_svcReplied.mpr ⟨r, hr, hevent', hseq'.trans hseq⟩

end

/-! ### Two runs -/

/-- A run of one message that is confirmed. -/
def oneApp : Ledger := ⟨[⟨.sent, 1, "b".toList, .fin 1⟩, ⟨.confirmed, 1, "b".toList, .fin 2⟩]⟩

def oneSvc : Ledger := ⟨[⟨.received, 1, "b".toList, .fin 1⟩, ⟨.replied, 1, "b".toList, .fin 1⟩]⟩

/-- A request of an earlier run that was left behind. -/
def leftover (seq : ℤ) : LedgerEntry := ⟨.received, seq, "a".toList, .fin 0⟩

theorem leftovers_cons (seq : ℤ) :
    Leftovers oneApp oneSvc oneApp ⟨leftover seq :: oneSvc.entries⟩ [] [leftover seq] where
  inApp := .left _ (.left _ .nil)
  inSvc := .right _ (.left _ (.left _ .nil))
  confirms := fun e he => absurd he (by simp)
  serves := fun e he => by
    obtain rfl := List.mem_singleton.mp he
    have huuid : ∀ s ∈ oneApp.entries, s.uuid ≠ "a".toList := by decide
    exact ⟨.inl rfl, fun s hs _ _ => huuid s hs⟩

theorem reconcile_eq_of_other_seq :
    reconcile oneApp ⟨leftover 2 :: oneSvc.entries⟩ ∅ ∅ (.fin 5) = reconcile oneApp oneSvc ∅ ∅ (.fin 5) := by
  refine (reconcile_eq_iff (leftovers_cons 2) ∅ ∅ (.fin 5)).mpr ?_
  have hseq : ∀ e ∈ [leftover 2], e.seq ∉ oneApp.sentSeqs := by decide
  refine ⟨fun e he _ => hseq e he, fun e he _ hin => absurd hin (hseq e he), fun e he => absurd he (by simp),
    fun n _ => rfl⟩

/-- A leftover of the seq of a confirmed message makes it a duplicate: the run
has a loss window, and its baseline fails. -/
theorem leftover_changes_verdict : ∃ app svc app' svc' confirmed served cut,
    Leftovers app svc app' svc' confirmed served ∧
    reconcile app' svc' ∅ ∅ cut ≠ reconcile app svc ∅ ∅ cut ∧
    census (reconcile app' svc' ∅ ∅ cut) ≠ census (reconcile app svc ∅ ∅ cut) ∧
    lossWindow (reconcile app' svc' ∅ ∅ cut) ≠ lossWindow (reconcile app svc ∅ ∅ cut) ∧
    assertSelfCorrect (reconcile app' svc' ∅ ∅ cut) ≠ assertSelfCorrect (reconcile app svc ∅ ∅ cut) := by
  have hsent : oneApp.sentSeqs = {1} := by decide
  have hone : ∀ svc : Ledger, reconcile oneApp svc ∅ ∅ (.fin 5) = [factsOf oneApp svc ∅ ∅ (.fin 5) 1] := fun svc => by
    simp [reconcile, hsent]
  refine ⟨oneApp, oneSvc, oneApp, ⟨leftover 1 :: oneSvc.entries⟩, [], [leftover 1], .fin 5, leftovers_cons 1, ?_⟩
  rw [hone, hone]
  decide +kernel

end Dr
end MqResiliency
