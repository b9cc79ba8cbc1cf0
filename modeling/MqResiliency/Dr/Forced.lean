/-
# The loss of a forced DR

`mq-dr-forced` (`dr_forced.py`) on the two ledgers, the instant the replication
link broke and the instant the primary site died. What was sent in between was
on the dead primary only; everything else counts as present on the secondary,
and nothing as present on the primary's disk.

`main` reads the app's ledger twice. `forced` is what it makes of a ledger on
which the two readers agree (`main_eq_forced`), and its verdicts are those of
the window: `forced_attribution`.

Its report, like the baseline's, states as the peak the exposure that is left
at the end: `reports_peak_iff` says on which ledgers this is no lower than the
exposure at any instant.
-/
import MqResiliency.Dr.Baseline
import MqResiliency.Dr.Exposure
import MqResiliency.Dr.LedgerFileLaw

namespace MqResiliency
namespace Dr

open Py

/-! ### The analyzer -/

/-- What `main` prints. -/
structure ForcedRun where
  facts : List MessageFacts
  report : ScenarioReport
  sent : ℕ
  lost : ℕ

/-- `t` in `break_ts <= t <= kill_ts`; other values do not compare with a float. -/
def numberOf : Json Double → Option Ts
  | .int n => some (.fin n)
  | .bool b => some (.fin b.toInt)
  | .float x => some (tsOf x)
  | .str _ | .null | .arr _ | .obj _ => none

def inWindow (breakTs killTs t : Ts) : Bool := breakTs.le t ∧ t.le killTs

/-- `lost`. -/
def lostKeys (sentTs : Dict Key (Json Double)) (breakTs killTs : Ts) : Option (List Key) := do
  let stamps ← sentTs.items.mapM fun p => do
    let t ← numberOf p.2
    return (p.1, t)
  return (stamps.filter fun p => inWindow breakTs killTs p.2).map Prod.fst

/-- The report on an app that lost `lost` of what it sent. -/
def lossRun (app svc : Ledger) (secondaryPresent : Finset ℤ) (lost : ℕ) (breakTs : Ts) : ForcedRun :=
  let facts := reconcile app svc secondaryPresent ∅ breakTs
  { facts := facts
    report := buildReport "DR-FORCE-1".toList "pcmk-dr".toList facts (exposure app none)
    sent := app.sentSeqs.card
    lost := lost }

/-- `main`; `none` is an exception. -/
def forcedMain (py : Texts) (appFile svcFile : Option Str) (breakTs killTs : Ts) : Option ForcedRun := do
  let app ← readJsonl py appFile
  let svc ← readJsonl py svcFile
  let sentTs ← sentTs appFile
  let lost ← lostKeys sentTs breakTs killTs
  return lossRun app svc (app.sentSeqs.filter fun n => Key.num n ∉ lost) lost.length breakTs

/-! ### On one reading of the ledger -/

/-- The messages sent in the window. -/
def lostSeqs (app : Ledger) (breakTs killTs : Ts) : Finset ℤ :=
  (((app.ofEvent .sent).filter fun e => inWindow breakTs killTs e.ts).map (·.seq)).toFinset

/-- What `main` prints of the ledgers. -/
def forced (app svc : Ledger) (breakTs killTs : Ts) : ForcedRun :=
  lossRun app svc (app.sentSeqs \ lostSeqs app breakTs killTs) (lostSeqs app breakTs killTs).card breakTs

section
variable {app svc : Ledger} {breakTs killTs : Ts}

theorem mem_lostSeqs {n : ℤ} : n ∈ lostSeqs app breakTs killTs ↔
    ∃ e ∈ app.ofEvent .sent, inWindow breakTs killTs e.ts = true ∧ e.seq = n := by
  simp [lostSeqs, and_assoc]

theorem numberOf_of_denotes {v : Json Double} {ts : Ts} (h : Denotes v ts) : numberOf v = some ts := by
  unfold Denotes at h
  split at h
  · exact congrArg some h
  · rw [h]; rfl
  · rw [h]; rfl
  · exact h.elim

/-- The second reading, of messages that were each sent once: a timestamp of its own for each. -/
theorem denotes_of_item (hsent : SentOnce app) {out : Dict Key (Json Double)}
    (hkeys : ∀ k, k ∈ out.keys ↔ ∃ n ∈ app.sentSeqs, k = .num n)
    (hvalues : ∀ (n : ℤ) v, out.get? (.num n) = some v →
      ∃ e ∈ app.entries, e.event = .sent ∧ e.seq = n ∧ Denotes v e.ts)
    {e : LedgerEntry} (he : e ∈ app.ofEvent .sent) :
    ∃ v, (Key.num e.seq, v) ∈ out.items ∧ numberOf v = some e.ts := by
  obtain ⟨hmem, hk⟩ := Ledger.mem_ofEvent.mp he
  have hin : Key.num e.seq ∈ out.keys := (hkeys _).mpr ⟨e.seq, Ledger.mem_sentSeqs.mpr ⟨e, hmem, hk, rfl⟩, rfl⟩
  obtain ⟨v, hv⟩ := Option.isSome_iff_exists.mp (Dict.get?_isSome.mpr hin)
  obtain ⟨e', hmem', hk', hseq, hdenotes⟩ := hvalues e.seq v hv
  have hsame : e' = e := List.inj_on_of_nodup_map hsent (Ledger.mem_ofEvent.mpr ⟨hmem', hk'⟩) he hseq
  exact ⟨v, Dict.get?_eq_some.mp hv, hsame ▸ numberOf_of_denotes hdenotes⟩

theorem lostKeys_eq (hsent : SentOnce app) {out : Dict Key (Json Double)}
    (hkeys : ∀ k, k ∈ out.keys ↔ ∃ n ∈ app.sentSeqs, k = .num n)
    (hvalues : ∀ (n : ℤ) v, out.get? (.num n) = some v →
      ∃ e ∈ app.entries, e.event = .sent ∧ e.seq = n ∧ Denotes v e.ts) :
    ∃ lost, lostKeys out breakTs killTs = some lost ∧ lost.Nodup ∧
      ∀ k, k ∈ lost ↔ ∃ n ∈ lostSeqs app breakTs killTs, k = .num n := by
  have hitem : ∀ p ∈ out.items, ∃ e ∈ app.ofEvent .sent, p.1 = .num e.seq ∧ numberOf p.2 = some e.ts := by
    intro p hp
    obtain ⟨n, hn, hkey⟩ := (hkeys p.1).mp (List.mem_map_of_mem hp)
    obtain ⟨e, hmem, hk, rfl⟩ := Ledger.mem_sentSeqs.mp hn
    have he : e ∈ app.ofEvent .sent := Ledger.mem_ofEvent.mpr ⟨hmem, hk⟩
    obtain ⟨v, hv, hnumber⟩ := denotes_of_item hsent hkeys hvalues he
    have hval : out.get? p.1 = some p.2 := Dict.get?_eq_some.mpr hp
    rw [hkey, Dict.get?_eq_some.mpr hv] at hval
    exact ⟨e, he, hkey, Option.some.inj hval ▸ hnumber⟩
  let stamp : Key × Json Double → Key × Ts := fun p => (p.1, (numberOf p.2).getD .nan)
  have hstamps : (out.items.mapM fun p => (numberOf p.2).bind fun t => some (p.1, t)) =
      some (out.items.map stamp) := by
    refine mapM_eq_some.mpr ?_
    rw [List.forall₂_map_right_iff, List.forall₂_same]
    intro p hp
    obtain ⟨e, -, -, hnumber⟩ := hitem p hp
    simp [stamp, hnumber]
  refine ⟨((out.items.map stamp).filter fun p => inWindow breakTs killTs p.2).map Prod.fst, ?_, ?_, fun k => ?_⟩
  · simp only [lostKeys, Option.bind_eq_bind, Option.pure_def, hstamps, Option.bind_some]
  · have hfst : ((out.items.map stamp).map Prod.fst).Nodup := by
      rw [List.map_map]
      exact out.nodup
    exact hfst.sublist (List.filter_sublist.map _)
  · simp only [List.mem_map, List.mem_filter]
    constructor
    · rintro ⟨-, ⟨⟨p, hp, rfl⟩, hwindow⟩, rfl⟩
      obtain ⟨e, he, hkey, hnumber⟩ := hitem p hp
      have hts : (stamp p).2 = e.ts := by simp [stamp, hnumber]
      exact ⟨e.seq, mem_lostSeqs.mpr ⟨e, he, hts ▸ hwindow, rfl⟩, hkey⟩
    · rintro ⟨n, hn, rfl⟩
      obtain ⟨e, he, hwindow, rfl⟩ := mem_lostSeqs.mp hn
      obtain ⟨v, hv, hnumber⟩ := denotes_of_item hsent hkeys hvalues he
      have hstamp : stamp (.num e.seq, v) = (.num e.seq, e.ts) := by simp [stamp, hnumber]
      exact ⟨(.num e.seq, e.ts), ⟨⟨_, hv, hstamp⟩, hwindow⟩, rfl⟩

/-- **`main` attributes the ledger that it reads**, where its two readers agree. -/
theorem main_eq_forced {py : Texts} {appFile svcFile : Option Str} (hsent : SentOnce app)
    (happ : readJsonl py appFile = some app) (hsvc : readJsonl py svcFile = some svc)
    (hagree : ReadersAgree appFile app) :
    forcedMain py appFile svcFile breakTs killTs = some (forced app svc breakTs killTs) := by
  obtain ⟨out, hout, hkeys, hvalues⟩ := hagree
  obtain ⟨lost, hlost, hnodup, hmem⟩ : ∃ lost, lostKeys out breakTs killTs = some lost ∧ lost.Nodup ∧ _ :=
    lostKeys_eq hsent hkeys hvalues
  have hinj : Function.Injective fun n : ℤ => Key.num n := fun m n h => by simpa using Key.num.inj h
  have hin : ∀ n : ℤ, Key.num n ∈ lost ↔ n ∈ lostSeqs app breakTs killTs := by
    intro n
    rw [hmem]
    constructor
    · rintro ⟨m, hm, heq⟩
      exact hinj heq ▸ hm
    · exact fun hn => ⟨n, hn, rfl⟩
  have hpresent : (app.sentSeqs.filter fun n : ℤ => Key.num n ∉ lost) = app.sentSeqs \ lostSeqs app breakTs killTs := by
    ext n
    rw [Finset.mem_filter, Finset.mem_sdiff, hin]
  have hcard : lost.length = (lostSeqs app breakTs killTs).card := by
    rw [← List.toFinset_card_of_nodup hnodup, ← Finset.card_image_of_injective _ hinj]
    congr 1
    ext k
    rw [List.mem_toFinset, hmem, Finset.mem_image]
    exact exists_congr fun n => and_congr_right fun _ => eq_comm
  simp only [forcedMain, happ, hsvc, hout, hlost, Option.bind_eq_bind, Option.bind_some, Option.pure_def, hpresent,
    hcard, forced]

/-- And the ledgers that `write_jsonl` left. -/
theorem main_of_written {py : Texts} {appText svcText : Str} (hsent : SentOnce app)
    (happTs : ∀ e ∈ app.entries, RoundTrips py e.ts) (hsvcTs : ∀ e ∈ svc.entries, RoundTrips py e.ts)
    (happ : app.writeJsonl py = some appText) (hsvc : svc.writeJsonl py = some svcText) :
    forcedMain py (some appText) (some svcText) breakTs killTs = some (forced app svc breakTs killTs) := by
  have hread : ∀ {l : Ledger} {text : Str}, (∀ e ∈ l.entries, RoundTrips py e.ts) → l.writeJsonl py = some text →
      readJsonl py (some text) = some l := by
    intro l text hts hwrite
    obtain ⟨rows, hrows, -⟩ := Option.bind_eq_some_iff.mp hwrite
    have hshort : ∀ e ∈ l.entries, Conv.digitsOf e.seq ≤ maxStrDigits := fun e he => by
      obtain ⟨row, -, hrow⟩ := exists_of_forall₂_left (mapM_eq_some.mp hrows) e he
      exact ((rowText_eq_some .nan).mp hrow).1
    obtain ⟨text', hwrite', hread⟩ := (readJsonl_writeJsonl py l hts).mpr hshort
    rw [hwrite] at hwrite'
    exact (Option.some.inj hwrite').symm ▸ hread
  have happRead := hread happTs happ
  exact main_eq_forced hsent happRead (hread hsvcTs hsvc)
    ((readersAgree_iff happRead).mpr ⟨appText, rfl, plain_of_writeJsonl happTs happ⟩)

/-! ### Verdicts -/

/-- Nothing on the primary's disk: first match wins among five. -/
theorem classify_of_no_disk {f : MessageFacts} (hdisk : f.onPrimaryDisk = false) : classify f ≠ .stranded ∧
    (classify f = .lostUnprocessed ↔ (f.appConfirmed = false ∧ f.onSecondary = false) ∧ f.svcReceived = 0) ∧
    (classify f = .ambiguous ↔ (f.appConfirmed = false ∧ f.onSecondary = false) ∧ f.svcReceived = 1) := by
  unfold classify
  by_cases htwice : 2 ≤ f.svcReceived
  · have hnot : f.svcReceived ≠ 0 ∧ f.svcReceived ≠ 1 := by omega
    simp [htwice, hnot]
  · cases hconf : f.appConfirmed
    · cases hsec : f.onSecondary
      · by_cases hone : f.svcReceived = 1
        · simp [hone]
        · have hzero : f.svcReceived = 0 := by omega
          simp [hzero, hdisk]
      · simp [htwice]
    · simp [htwice]

/-- The message of `e` was sent in the window, and not confirmed by the break. -/
def Exposed (app : Ledger) (breakTs killTs : Ts) (e : LedgerEntry) : Prop :=
  (breakTs.le e.ts = true ∧ e.ts.le killTs = true) ∧
    ¬ ∃ c ∈ app.entries, c.event = .confirmed ∧ c.seq = e.seq ∧ c.ts.le breakTs = true

/-- How often SVC received the message of `e`. -/
def receipts (svc : Ledger) (e : LedgerEntry) : ℕ := svc.entries.countP fun r => r.event = .received ∧ r.seq = e.seq

theorem svcReceiveCounts_eq_receipts (e : LedgerEntry) : svc.svcReceiveCounts e.seq = receipts svc e := by
  rw [Ledger.svcReceiveCounts_eq, Ledger.ofEvent, List.countP_filter, receipts]
  simp only [Bool.decide_and, Bool.and_comm]

/-- What is neither confirmed by the break nor on the secondary. -/
theorem exposed_iff (hsent : SentOnce app) {e : LedgerEntry} (he : e ∈ app.ofEvent .sent) :
    (e.seq ∉ app.confirmedSeqs (some breakTs) ∧ e.seq ∉ app.sentSeqs \ lostSeqs app breakTs killTs) ↔
      Exposed app breakTs killTs e := by
  have hin : e.seq ∈ app.sentSeqs := by
    obtain ⟨hmem, hk⟩ := Ledger.mem_ofEvent.mp he
    exact Ledger.mem_sentSeqs.mpr ⟨e, hmem, hk, rfl⟩
  have hlost : e.seq ∈ lostSeqs app breakTs killTs ↔ breakTs.le e.ts = true ∧ e.ts.le killTs = true := by
    rw [mem_lostSeqs]
    constructor
    · rintro ⟨e', he', hwindow, hseq⟩
      rw [List.inj_on_of_nodup_map hsent he' he hseq] at hwindow
      simpa [inWindow] using hwindow
    · exact fun hwindow => ⟨e, he, by simpa [inWindow] using hwindow, rfl⟩
  have hconf : e.seq ∈ app.confirmedSeqs (some breakTs) ↔
      ∃ c ∈ app.entries, c.event = .confirmed ∧ c.seq = e.seq ∧ c.ts.le breakTs = true := by
    simp [Ledger.mem_confirmedSeqs]
  rw [Finset.mem_sdiff, not_and, not_not, hconf, Exposed, ← hlost, and_comm]
  exact and_congr_left fun _ => ⟨fun h => h hin, fun h _ => h⟩

/-- The facts of a message that was sent once. -/
theorem facts_of_sent (hsent : SentOnce app) {f : MessageFacts} (hf : f ∈ (forced app svc breakTs killTs).facts)
    {e : LedgerEntry} (he : e ∈ app.ofEvent .sent) (hseq : e.seq = f.seq) : f.svcReceived = receipts svc e ∧
      ((f.appConfirmed = false ∧ f.onSecondary = false) ↔ Exposed app breakTs killTs e) := by
  obtain ⟨n, -, rfl⟩ := mem_reconcile.mp hf
  obtain rfl : e.seq = n := hseq
  refine ⟨svcReceiveCounts_eq_receipts e, ?_⟩
  rw [← exposed_iff hsent he]
  simp [factsOf]

end

/-- **The attribution of a forced DR is exact**, in what `main` reports of two
ledgers that were written. -/
theorem forced_attribution {app : Ledger} (hsent : SentOnce app) (svc : Ledger) (breakTs killTs : Ts) :
    (∀ py appText svcText, (∀ e ∈ app.entries, RoundTrips py e.ts) → (∀ e ∈ svc.entries, RoundTrips py e.ts) →
      app.writeJsonl py = some appText → svc.writeJsonl py = some svcText →
        forcedMain py (some appText) (some svcText) breakTs killTs = some (forced app svc breakTs killTs)) ∧
    (∀ e ∈ app.ofEvent .sent, ∃ f ∈ (forced app svc breakTs killTs).facts, f.seq = e.seq) ∧
    (∀ f ∈ (forced app svc breakTs killTs).facts, classify f ≠ .stranded ∧
      ∃ e ∈ app.ofEvent .sent, e.seq = f.seq ∧
        (receipts svc e < 2 → (classify f ∉ safeBuckets ↔ Exposed app breakTs killTs e)) ∧
        (classify f = .lostUnprocessed ↔ Exposed app breakTs killTs e ∧ receipts svc e = 0) ∧
        (classify f = .ambiguous ↔ Exposed app breakTs killTs e ∧ receipts svc e = 1) ∧
        (¬ (breakTs.le e.ts = true ∧ e.ts.le killTs = true) →
          classify f ≠ .lostUnprocessed ∧ classify f ≠ .ambiguous)) ∧
    (forced app svc breakTs killTs).report.census = census (forced app svc breakTs killTs).facts ∧
    (Bucket.stranded, 0) ∈ (forced app svc breakTs killTs).report.census := by
  have hverdict : ∀ f ∈ (forced app svc breakTs killTs).facts, ∃ e ∈ app.ofEvent .sent, e.seq = f.seq ∧
      f.onPrimaryDisk = false := by
    intro f hf
    obtain ⟨n, hn, rfl⟩ := mem_reconcile.mp hf
    obtain ⟨e, he, hk, rfl⟩ := Ledger.mem_sentSeqs.mp hn
    exact ⟨e, Ledger.mem_ofEvent.mpr ⟨he, hk⟩, rfl, rfl⟩
  have hdisk : ∀ f ∈ (forced app svc breakTs killTs).facts, classify f ≠ .stranded := by
    intro f hf
    obtain ⟨e, -, -, hdisk⟩ := hverdict f hf
    exact (classify_of_no_disk hdisk).1
  refine ⟨fun _ _ _ happTs hsvcTs happ hsvc => main_of_written hsent happTs hsvcTs happ hsvc, fun e he => ?_,
    fun f hf => ?_, rfl, ?_⟩
  · obtain ⟨hmem, hk⟩ := Ledger.mem_ofEvent.mp he
    exact ⟨_, mem_reconcile.mpr ⟨e.seq, Ledger.mem_sentSeqs.mpr ⟨e, hmem, hk, rfl⟩, rfl⟩, rfl⟩
  · obtain ⟨e, he, hseq, hno⟩ := hverdict f hf
    obtain ⟨hstranded, hlost, hambiguous⟩ := classify_of_no_disk hno
    obtain ⟨hreceived, hexposed⟩ := facts_of_sent hsent hf he hseq
    rw [hexposed, hreceived] at hlost hambiguous
    refine ⟨hstranded, e, he, hseq, fun honce => ?_, hlost, hambiguous, fun hout => ⟨fun h => ?_, fun h => ?_⟩⟩
    · rw [classify_not_mem_safe, hexposed, hreceived]
      exact or_iff_right (by omega)
    · exact hout (hlost.mp h).1.1
    · exact hout (hambiguous.mp h).1.1
  · refine List.mem_map.mpr ⟨.stranded, by decide, Prod.ext rfl ?_⟩
    exact List.countP_eq_zero.mpr fun f hf => by simpa using hdisk f hf

/-- One message was lost, one is ambiguous, and one was sent before the break. -/
def someBreak : Ledger := ⟨[⟨.sent, 1, "u1".toList, .fin 1⟩, ⟨.sent, 2, "u2".toList, .fin 5⟩,
  ⟨.sent, 3, "u3".toList, .fin 6⟩]⟩

theorem forced_attribution_break : SentOnce someBreak ∧
    ∀ f ∈ (forced someBreak ⟨[⟨.received, 3, "u3".toList, .fin 7⟩]⟩ (.fin 4) (.fin 9)).facts,
      classify f ≠ .stranded := by
  have hsent : SentOnce someBreak := by unfold SentOnce; decide
  exact ⟨hsent, fun f hf => ((forced_attribution hsent ⟨[⟨.received, 3, "u3".toList, .fin 7⟩]⟩ (.fin 4)
    (.fin 9)).2.2.1 f hf).1⟩

/-! ### The peak that is reported -/

/-- The report's peak is no lower than the exposure at any instant. -/
def StatesPeak (app : Ledger) (report : ScenarioReport) : Prop := ∀ t, exposure app (some t) ≤ report.peakExposure

/-- The messages sent by `t` whose confirmation comes later. -/
def waiting (app : Ledger) (t : Ts) : Finset ℤ :=
  (unresolvedSeqs app (some t)).filter fun n => n ∈ app.confirmedSeqs none

/-- The messages sent after `t` only, and never confirmed. -/
def toCome (app : Ledger) (t : Ts) : Finset ℤ :=
  (unresolvedSeqs app none).filter fun n => n ∉ sentSeqsBy app t

section
variable {app svc : Ledger} {t : Ts}

theorem sentSeqsBy_subset : sentSeqsBy app t ⊆ app.sentSeqs := by
  intro n hn
  obtain ⟨e, he, -, rfl⟩ := mem_sentSeqsBy.mp hn
  obtain ⟨hmem, hk⟩ := Ledger.mem_ofEvent.mp he
  exact Ledger.mem_sentSeqs.mpr ⟨e, hmem, hk, rfl⟩

theorem unresolvedSeqs_none : unresolvedSeqs app none = app.sentSeqs \ app.confirmedSeqs none := by
  simp [unresolvedSeqs, Ledger.sentSeqs]

/-- The gauge at an instant and at the end differ by who waits and who is still to come. -/
theorem exposure_le_iff : exposure app (some t) ≤ exposure app none ↔ (waiting app t).card ≤ (toCome app t).card := by
  have hwaiting : waiting app t = unresolvedSeqs app (some t) \ unresolvedSeqs app none := by
    ext n
    rw [waiting, Finset.mem_filter, Finset.mem_sdiff, unresolvedSeqs_none, Finset.mem_sdiff, not_and, not_not]
    refine and_congr_right fun hn => ⟨fun h _ => h, fun h => h ?_⟩
    exact sentSeqsBy_subset (Finset.mem_sdiff.mp hn).1
  have htoCome : toCome app t = unresolvedSeqs app none \ unresolvedSeqs app (some t) := by
    ext n
    rw [toCome, Finset.mem_filter, Finset.mem_sdiff, unresolvedSeqs_eq, Finset.mem_sdiff, not_and, not_not,
      unresolvedSeqs_none, Finset.mem_sdiff]
    refine and_congr_right fun hn => ⟨fun h hby => absurd hby h, fun h hby => hn.2 ?_⟩
    exact mem_confirmedSeqs_none (h hby)
  rw [hwaiting, htoCome, Finset.card_sdiff_le_card_sdiff_iff]
  rfl

/-- A baseline that passes has every message confirmed. -/
theorem toCome_of_baseline {report : ScenarioReport} (h : baseline app svc = .ok report) : toCome app t = ∅ := by
  have hall := baseline_eq_ok.mp ⟨report, h⟩
  refine Finset.filter_eq_empty_iff.mpr fun n hn => ?_
  rw [unresolvedSeqs_none, Finset.mem_sdiff] at hn
  exact absurd (mem_confirmedSeqs_none (hall n hn.1).1) hn.2

theorem peak_of_baseline {report : ScenarioReport} (h : baseline app svc = .ok report) :
    report.peakExposure = exposure app none := by
  unfold baseline at h
  dsimp only at h
  split at h
  · cases h
  · obtain rfl := Except.ok.inj h
    rfl

end

/-- **When the drills' reports state the true peak**: at no instant more
messages wait for a confirmation that comes later than are still to be sent and
never confirmed; in a baseline, at no instant any. -/
theorem reports_peak_iff (app svc : Ledger) (breakTs killTs : Ts) :
    (((∀ report, baseline app svc = .ok report → StatesPeak app report) ∧
        StatesPeak app (forced app svc breakTs killTs).report) ↔
      ∀ t, (waiting app t).card ≤ (toCome app t).card) ∧
    ∀ report, baseline app svc = .ok report → (StatesPeak app report ↔ ∀ t, waiting app t = ∅) := by
  have hforced : StatesPeak app (forced app svc breakTs killTs).report ↔
      ∀ t, (waiting app t).card ≤ (toCome app t).card := forall_congr' fun _ => exposure_le_iff
  have hbaseline : ∀ report, baseline app svc = .ok report →
      (StatesPeak app report ↔ ∀ t, (waiting app t).card ≤ (toCome app t).card) := by
    intro report h
    rw [StatesPeak, peak_of_baseline h]
    exact forall_congr' fun _ => exposure_le_iff
  refine ⟨⟨fun h => hforced.mp h.2, fun h => ⟨fun report hr => (hbaseline report hr).mpr h, hforced.mpr h⟩⟩,
    fun report hr => ?_⟩
  rw [hbaseline report hr]
  refine forall_congr' fun t => ?_
  rw [toCome_of_baseline hr, Finset.card_empty, Nat.le_zero, Finset.card_eq_zero]

/-- One message was in flight, and the reports state a peak of none. -/
theorem reports_miss_peak :
    let app : Ledger := ⟨[⟨.sent, 1, "u1".toList, .fin 1⟩, ⟨.confirmed, 1, "u1".toList, .fin 2⟩]⟩
    let svc : Ledger := ⟨[⟨.received, 1, "u1".toList, .fin 1⟩]⟩
    (∃ report, baseline app svc = .ok report ∧ ¬ StatesPeak app report) ∧
      ¬ StatesPeak app (forced app svc (.fin 5) (.fin 6)).report := by
  intro app svc
  have hone : exposure app (some (.fin 1)) = 1 := by decide
  have hend : exposure app none = 0 := by decide
  obtain ⟨report, hok⟩ : ∃ report, baseline app svc = .ok report := by
    rw [baseline_eq_ok]
    decide
  refine ⟨⟨report, hok, fun h => ?_⟩, fun h => ?_⟩
  · have hle := h (.fin 1)
    rw [peak_of_baseline hok] at hle
    omega
  · have hle : exposure app (some (.fin 1)) ≤ exposure app none := h (.fin 1)
    omega

end Dr
end MqResiliency
