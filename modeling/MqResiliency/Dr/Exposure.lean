/-
# The peak of the exposure gauge

`peak_exposure` (`exposure.py`) replays a ledger's SENT and CONFIRMED entries
in the order of their timestamps, a SENT before a CONFIRMED of the same time,
and counts up and down. So it is the most there ever is of messages sent by an
instant less confirmations from before it (`peakExposure_spec`), whatever the
confirmations are of.

In a ledger in which each confirmation is the only one of its message and does
not come before its SENT (`Ordered`), that is no lower than the gauge at any
instant; it is the gauge's maximum as long as nothing is sent at the time of a
confirmation (`peak_covers`). By how much it may fall short of the gauge
elsewhere is `exposure_le_peak_add`.
-/
import Mathlib.Algebra.Order.BigOperators.Group.List
import Mathlib.Data.Prod.Lex
import Mathlib.Order.WithBot
import MqResiliency.Dr.Accounting
import MqResiliency.Lib.Sweep

namespace MqResiliency
namespace Dr

open Py

/-! ### The replay -/

/-- `<` of two floats. -/
def Ts.lt (a b : Ts) : Bool := a.le b ∧ a ≠ b

/-- An entry of the app's on the gauge: its time, and up or down. -/
def LedgerEntry.move (e : LedgerEntry) : Option (Ts × ℤ) :=
  match e.event with
  | .sent => some (e.ts, 1)
  | .confirmed => some (e.ts, -1)
  | .received | .replied => none

/-- The keys `(ts, -delta)` of two moves compare `<`. -/
def keyLt (x y : Ts × ℤ) : Bool := x.1.lt y.1 ∨ (x.1 = y.1 ∧ -x.2 < -y.2)

/-- `events`, sorted. -/
def sortedMoves (app : Ledger) : List (Ts × ℤ) :=
  (app.entries.filterMap (·.move)).insertionSort fun x y => keyLt y x = false

def peakExposure (app : Ledger) : ℤ := Sweep.peakFrom 0 0 ((sortedMoves app).map Prod.snd)

/-! ### Timestamps in order -/

/-- The place of a timestamp that is no NaN. -/
def Ts.rank : Ts → WithBot (WithTop ℚ)
  | .nan => ⊥
  | .negInf => ⊥
  | .fin t => ((t : WithTop ℚ) : WithBot (WithTop ℚ))
  | .posInf => ((⊤ : WithTop ℚ) : WithBot (WithTop ℚ))

theorem Ts.le_iff {a b : Ts} (ha : a ≠ .nan) (hb : b ≠ .nan) : a.le b = true ↔ a.rank ≤ b.rank := by
  cases a <;> cases b <;> simp_all [Ts.le, Ts.rank]

theorem Ts.rank_inj {a b : Ts} (ha : a ≠ .nan) (hb : b ≠ .nan) : a.rank = b.rank ↔ a = b := by
  cases a <;> cases b <;> simp_all [Ts.rank]

theorem Ts.lt_iff {a b : Ts} (ha : a ≠ .nan) (hb : b ≠ .nan) : a.lt b = true ↔ a.rank < b.rank := by
  rw [Ts.lt, decide_eq_true_eq, Ts.le_iff ha hb, Ne, ← Ts.rank_inj ha hb, lt_iff_le_and_ne]

/-- The key of a move, in the order of tuples. -/
def rankKey (x : Ts × ℤ) : WithBot (WithTop ℚ) ×ₗ ℤ := toLex (x.1.rank, -x.2)

theorem keyLt_iff {x y : Ts × ℤ} (hx : x.1 ≠ .nan) (hy : y.1 ≠ .nan) : keyLt x y = true ↔ rankKey x < rankKey y := by
  rw [keyLt, decide_eq_true_eq, Ts.lt_iff hx hy, ← Ts.rank_inj hx hy, rankKey, rankKey, Prod.Lex.toLex_lt_toLex]

theorem keyLt_eq_false {x y : Ts × ℤ} (hx : x.1 ≠ .nan) (hy : y.1 ≠ .nan) :
    keyLt y x = false ↔ rankKey x ≤ rankKey y := by
  rw [← not_lt, ← keyLt_iff hy hx, Bool.not_eq_true]

/-- The clock gives no NaN. -/
def Clocked (app : Ledger) : Prop := ∀ e ∈ app.entries, e.ts ≠ .nan

section
variable {app : Ledger}

theorem mem_sortedMoves {x : Ts × ℤ} : x ∈ sortedMoves app ↔ ∃ e ∈ app.entries, e.move = some x := by
  rw [sortedMoves, List.mem_insertionSort, List.mem_filterMap]

theorem ts_of_move {e : LedgerEntry} {x : Ts × ℤ} (h : e.move = some x) : x.1 = e.ts := by
  unfold LedgerEntry.move at h
  split at h <;> cases h <;> rfl

theorem clocked_moves (hclock : Clocked app) {x : Ts × ℤ} (hx : x ∈ sortedMoves app) : x.1 ≠ .nan := by
  obtain ⟨e, he, hmove⟩ := mem_sortedMoves.mp hx
  rw [ts_of_move hmove]
  exact hclock e he

theorem pairwise_sortedMoves (hclock : Clocked app) :
    (sortedMoves app).Pairwise fun x y => rankKey x ≤ rankKey y := by
  have hmoves : ∀ x ∈ app.entries.filterMap (·.move), x.1 ≠ .nan := fun x hx =>
    clocked_moves hclock ((List.mem_insertionSort _).mpr hx)
  have hmap : (sortedMoves app).map rankKey =
      ((app.entries.filterMap (·.move)).map rankKey).insertionSort (· ≤ ·) := by
    refine List.map_insertionSort _ _ _ _ fun x hx y hy => ?_
    exact keyLt_eq_false (hmoves x hx) (hmoves y hy)
  have hsorted : ((sortedMoves app).map rankKey).Pairwise (· ≤ ·) := by
    rw [hmap]
    exact List.pairwise_insertionSort _ _
  exact List.pairwise_map.mp hsorted

/-! ### Cuts -/

/-- What is sent by `t`. -/
def sentBy (app : Ledger) (t : Ts) : ℕ := (app.ofEvent .sent).countP (·.ts.le t)

/-- The confirmations from before `t`. -/
def confirmedBefore (app : Ledger) (t : Ts) : ℕ := (app.ofEvent .confirmed).countP (·.ts.lt t)

/-- What the replay has done once it is through with the messages sent at `t`. -/
def inCut (t : Ts) (x : Ts × ℤ) : Bool := x.1.lt t ∨ (x.1 = t ∧ 0 < x.2)

theorem inCut_sent {t : Ts} {e : LedgerEntry} (he : e.ts ≠ .nan) (ht : t ≠ .nan) : inCut t (e.ts, 1) = e.ts.le t := by
  have hlt : (e.ts.lt t = true ∨ e.ts = t ∧ (0 : ℤ) < 1) ↔ e.ts.le t = true := by
    rw [Ts.lt_iff he ht, Ts.le_iff he ht, ← Ts.rank_inj he ht, le_iff_lt_or_eq]
    simp
  rw [inCut, Bool.eq_iff_iff, decide_eq_true_eq]
  exact hlt

/-- A cut has the messages sent by its time and the confirmations from before it. -/
theorem sum_cut {t : Ts} (ht : t ≠ .nan) : ∀ {es : List LedgerEntry}, (∀ e ∈ es, e.ts ≠ .nan) →
    (((es.filterMap (·.move)).filter (inCut t)).map Prod.snd).sum =
      ((es.filter (·.event = .sent)).countP (·.ts.le t) : ℤ) -
        (es.filter (·.event = .confirmed)).countP (·.ts.lt t)
  | [], _ => rfl
  | e :: es, hes => by
    have ih := sum_cut ht fun e' he' => hes e' (List.mem_cons_of_mem e he')
    have he := hes e List.mem_cons_self
    cases hk : e.event with
    | sent =>
      have hmove : e.move = some (e.ts, 1) := by rw [LedgerEntry.move, hk]
      rw [List.filterMap_cons_some hmove, List.filter_cons, inCut_sent he ht, List.filter_cons_of_pos (by simp [hk]),
        List.filter_cons_of_neg (by simp [hk]), List.countP_cons]
      by_cases hle : e.ts.le t
      · simp only [hle, if_true, List.map_cons, List.sum_cons, ih]
        omega
      · simp only [hle, if_false, ih, Bool.false_eq_true]
        omega
    | confirmed =>
      have hmove : e.move = some (e.ts, -1) := by rw [LedgerEntry.move, hk]
      have hcut : inCut t (e.ts, -1) = e.ts.lt t := by simp [inCut]
      rw [List.filterMap_cons_some hmove, List.filter_cons, hcut, List.filter_cons_of_neg (by simp [hk]),
        List.filter_cons_of_pos (by simp [hk]), List.countP_cons]
      by_cases hlt : e.ts.lt t
      · simp only [hlt, if_true, List.map_cons, List.sum_cons, ih]
        omega
      · simp only [hlt, if_false, ih, Bool.false_eq_true]
        omega
    | received | replied =>
      have hmove : e.move = none := by rw [LedgerEntry.move, hk]
      rw [List.filterMap_cons_none hmove, List.filter_cons_of_neg (by simp [hk]),
        List.filter_cons_of_neg (by simp [hk])]
      exact ih

/-- What comes no later than something in a cut is in it. -/
theorem inCut_of_le {t : Ts} (ht : t ≠ .nan) {x y : Ts × ℤ} (hx : x.1 ≠ .nan) (hy : y.1 ≠ .nan)
    (hle : rankKey x ≤ rankKey y) (hcut : inCut t y) : inCut t x := by
  rw [inCut, decide_eq_true_eq, Ts.lt_iff hy ht, ← Ts.rank_inj hy ht] at hcut
  rw [inCut, decide_eq_true_eq, Ts.lt_iff hx ht, ← Ts.rank_inj hx ht]
  rcases Prod.Lex.toLex_le_toLex.mp hle with hlt | ⟨heq, hdelta⟩
  · rcases hcut with hcut | ⟨hcut, -⟩
    · exact .inl (hlt.trans hcut)
    · exact .inl (hcut ▸ hlt)
  · have heq : x.1.rank = y.1.rank := heq
    have hdelta : -x.2 ≤ -y.2 := hdelta
    rw [heq]
    exact hcut.imp_right fun ⟨hat, hup⟩ => ⟨hat, by omega⟩

/-- What is in a cut, and comes no earlier than a message sent at its time, is a step up. -/
theorem up_of_inCut {t : Ts} (ht : t ≠ .nan) {y : Ts × ℤ} (hy : y.1 ≠ .nan) (hle : rankKey (t, 1) ≤ rankKey y)
    (hcut : inCut t y) : 0 ≤ y.2 := by
  rw [inCut, decide_eq_true_eq, Ts.lt_iff hy ht] at hcut
  rcases hcut with hlt | ⟨-, hup⟩
  · have hge : t.rank ≤ y.1.rank := by
      rcases Prod.Lex.toLex_le_toLex.mp hle with hgt | ⟨heq, -⟩
      · exact le_of_lt hgt
      · exact le_of_eq heq
    exact absurd hlt (not_lt.mpr hge)
  · omega

/-- The replay is through with a cut before it comes to the rest. -/
theorem sortedMoves_cut (hclock : Clocked app) {t : Ts} (ht : t ≠ .nan) : sortedMoves app =
    (sortedMoves app).filter (inCut t) ++ (sortedMoves app).filter fun x => !inCut t x :=
  Sweep.filter_append_of_pairwise (pairwise_sortedMoves hclock) fun _ hx _ hy hle hcut =>
    inCut_of_le ht (clocked_moves hclock hx) (clocked_moves hclock hy) hle hcut

theorem sum_sortedMoves_cut (hclock : Clocked app) {t : Ts} (ht : t ≠ .nan) :
    (((sortedMoves app).filter (inCut t)).map Prod.snd).sum = (sentBy app t : ℤ) - confirmedBefore app t := by
  have hperm : (sortedMoves app).Perm (app.entries.filterMap (·.move)) := List.perm_insertionSort _ _
  rw [((hperm.filter _).map _).sum_eq]
  exact sum_cut ht hclock

/-- A step up is of a SENT. -/
theorem sent_of_up {x : Ts × ℤ} (hx : x ∈ sortedMoves app) (hup : 0 < x.2) :
    ∃ e ∈ app.ofEvent .sent, x = (e.ts, 1) := by
  obtain ⟨e, he, hmove⟩ := mem_sortedMoves.mp hx
  unfold LedgerEntry.move at hmove
  split at hmove
  · rename_i hk
    exact ⟨e, Ledger.mem_ofEvent.mpr ⟨he, hk⟩, (Option.some.inj hmove).symm⟩
  · obtain rfl := Option.some.inj hmove
    exact absurd hup (by decide : ¬ (0 : ℤ) < -1)
  · cases hmove
  · cases hmove

/-- Where the replay has just counted a message up, it has counted no more than
the cut at this time: the rest of the cut is steps up. -/
theorem sum_up_le (hclock : Clocked app) {t : Ts} {before after : List (Ts × ℤ)}
    (hmoves : sortedMoves app = before ++ (t, 1) :: after) :
    (before.map Prod.snd).sum + 1 ≤ (sentBy app t : ℤ) - confirmedBefore app t := by
  have hmem : ∀ y, y ∈ before ∨ y = (t, 1) ∨ y ∈ after → y.1 ≠ .nan := by
    intro y hy
    refine clocked_moves hclock ?_
    rw [hmoves]
    simpa using hy
  have ht : t ≠ .nan := hmem (t, 1) (.inr (.inl rfl))
  have hpair := pairwise_sortedMoves hclock
  rw [hmoves] at hpair
  obtain ⟨-, hafter, hbefore⟩ := List.pairwise_append.mp hpair
  have hhere : inCut t (t, 1) = true := by simp [inCut]
  have hcut : ∀ y ∈ before, inCut t y := fun y hy =>
    inCut_of_le ht (hmem y (.inl hy)) ht (hbefore y hy (t, 1) List.mem_cons_self) hhere
  have hups : ∀ d ∈ (after.filter (inCut t)).map Prod.snd, 0 ≤ d := by
    intro d hd
    obtain ⟨y, hy, rfl⟩ := List.mem_map.mp hd
    obtain ⟨hy, hin⟩ := List.mem_filter.mp hy
    exact up_of_inCut ht (hmem y (.inr (.inr hy))) ((List.pairwise_cons.mp hafter).1 y hy) hin
  have hsum := sum_sortedMoves_cut hclock ht
  rw [hmoves, List.filter_append, List.filter_eq_self.mpr hcut, List.filter_cons_of_pos hhere, List.map_append,
    List.sum_append, List.map_cons, List.sum_cons] at hsum
  have hrest := List.sum_nonneg hups
  omega

/-! ### What the peak is -/

theorem sentBy_nan : sentBy app .nan = 0 := by
  refine List.countP_eq_zero.mpr fun e _ => ?_
  cases e.ts <;> simp [Ts.le]

theorem le_peakExposure (hclock : Clocked app) (t : Ts) :
    (sentBy app t : ℤ) - confirmedBefore app t ≤ peakExposure app := by
  by_cases ht : t = .nan
  · have hpos : 0 ≤ peakExposure app := Sweep.le_peakFrom _ _ _
    rw [ht, sentBy_nan]
    omega
  · have hsplit := congrArg (List.map Prod.snd) (sortedMoves_cut hclock ht)
    rw [List.map_append] at hsplit
    rw [← sum_sortedMoves_cut hclock ht, peakExposure, hsplit]
    have hsum := Sweep.sum_le_peakFrom (((sortedMoves app).filter (inCut t)).map Prod.snd)
      (((sortedMoves app).filter fun x => !inCut t x).map Prod.snd) (le_refl (0 : ℤ))
    omega

/-- **The replay's peak**: at every instant no lower than what was sent by then
less the confirmations from before, and somewhere that. -/
theorem peakExposure_spec (hclock : Clocked app) :
    (∀ t, (sentBy app t : ℤ) - confirmedBefore app t ≤ peakExposure app) ∧
      (peakExposure app = 0 ∨ ∃ e ∈ app.ofEvent .sent,
        peakExposure app = (sentBy app e.ts : ℤ) - confirmedBefore app e.ts) := by
  refine ⟨le_peakExposure hclock, ?_⟩
  rcases Sweep.peakFrom_cases ((sortedMoves app).map Prod.snd) (le_refl (0 : ℤ)) with
    hzero | ⟨ds₁, d, ds₂, hds, hup, hpeak⟩
  · exact .inl hzero
  · obtain ⟨before, rest, hmoves, rfl, hrest⟩ := List.map_eq_append_iff.mp hds
    obtain ⟨x, after, rfl, rfl, rfl⟩ := List.map_eq_cons_iff.mp hrest
    obtain ⟨e, he, rfl⟩ := sent_of_up (by rw [hmoves]; simp : x ∈ sortedMoves app) hup
    have hle := sum_up_le hclock hmoves
    have hpeak : peakExposure app = 0 + (before.map Prod.snd).sum + 1 := hpeak
    refine .inr ⟨e, he, le_antisymm ?_ (le_peakExposure hclock e.ts)⟩
    omega

/-! ### The gauge -/

/-- Messages are sent once. -/
def SentOnce (app : Ledger) : Prop := ((app.ofEvent .sent).map (·.seq)).Nodup

/-- Each confirmation is the only one of its message, and does not come before its SENT. -/
structure Ordered (app : Ledger) : Prop where
  once : ((app.ofEvent .confirmed).map (·.seq)).Nodup
  follows : ∀ c ∈ app.ofEvent .confirmed, ∃ e ∈ app.ofEvent .sent, e.seq = c.seq ∧ e.ts.le c.ts

/-- The messages sent by `t`. -/
def sentSeqsBy (app : Ledger) (t : Ts) : Finset ℤ := (((app.ofEvent .sent).filter (·.ts.le t)).map (·.seq)).toFinset

theorem mem_sentSeqsBy {t : Ts} {n : ℤ} :
    n ∈ sentSeqsBy app t ↔ ∃ e ∈ app.ofEvent .sent, e.ts.le t = true ∧ e.seq = n := by
  simp [sentSeqsBy, and_assoc]

theorem unresolvedSeqs_eq (t : Ts) : unresolvedSeqs app (some t) = sentSeqsBy app t \ app.confirmedSeqs (some t) := rfl

/-- As many different messages as entries, where no two are of one message. -/
theorem card_seqs {es : List LedgerEntry} (hes : (es.map (·.seq)).Nodup) (p : LedgerEntry → Bool) :
    ((es.filter p).map (·.seq)).toFinset.card = es.countP p := by
  rw [List.toFinset_card_of_nodup (hes.sublist (List.filter_sublist.map _)), List.length_map,
    List.countP_eq_length_filter]

theorem card_sentSeqsBy (hsent : SentOnce app) (t : Ts) : (sentSeqsBy app t).card = sentBy app t := card_seqs hsent _

/-- What the gauge shows: the messages sent, less those of them that are confirmed. -/
theorem exposure_add (hsent : SentOnce app) (t : Ts) :
    exposure app (some t) + (app.confirmedSeqs (some t) ∩ sentSeqsBy app t).card = sentBy app t := by
  have hcard := Finset.card_sdiff_add_card_inter (sentSeqsBy app t) (app.confirmedSeqs (some t))
  rw [Finset.inter_comm, card_sentSeqsBy hsent] at hcard
  exact hcard

/-- **How far the peak may fall short of the gauge**: no further than by the
confirmations from before, that are of no message sent and confirmed by then. -/
theorem exposure_le_peak_add (hclock : Clocked app) (hsent : SentOnce app) (t : Ts) :
    (exposure app (some t) : ℤ) ≤ peakExposure app +
      ((confirmedBefore app t : ℤ) - (app.confirmedSeqs (some t) ∩ sentSeqsBy app t).card) := by
  have hpeak := le_peakExposure hclock t
  have hadd := exposure_add hsent t
  omega

/-- A message that is confirmed twice hides one that is in flight. -/
example :
    let app : Ledger := ⟨[⟨.sent, 1, [], .fin 1⟩, ⟨.confirmed, 1, [], .fin 2⟩, ⟨.confirmed, 1, [], .fin 3⟩,
      ⟨.sent, 2, [], .fin 4⟩, ⟨.sent, 3, [], .fin 5⟩]⟩
    peakExposure app = 1 ∧ exposure app (some (.fin 5)) = 2 := by decide

/-- What is confirmed by an instant is sent by then. -/
theorem Ordered.confirmedSeqs_subset (hord : Ordered app) (t : Ts) : app.confirmedSeqs (some t) ⊆ sentSeqsBy app t := by
  intro n hn
  obtain ⟨c, hc, hk, rfl, hts⟩ := Ledger.mem_confirmedSeqs.mp hn
  obtain ⟨e, he, hseq, hle⟩ := hord.follows c (Ledger.mem_ofEvent.mpr ⟨hc, hk⟩)
  exact mem_sentSeqsBy.mpr ⟨e, he, Ts.le_trans hle (by simpa using hts), hseq⟩

/-- The confirmations by `t`. -/
def confirmedBy (app : Ledger) (t : Ts) : ℕ := (app.ofEvent .confirmed).countP (·.ts.le t)

theorem Ordered.exposure_eq (hord : Ordered app) (hsent : SentOnce app) (t : Ts) :
    exposure app (some t) + confirmedBy app t = sentBy app t := by
  have hcard : (app.confirmedSeqs (some t)).card = confirmedBy app t := by
    rw [confirmedBy, ← card_seqs hord.once]
    rfl
  rw [← exposure_add hsent t, Finset.inter_eq_left.mpr (hord.confirmedSeqs_subset t), hcard]

theorem confirmedBefore_le (t : Ts) : confirmedBefore app t ≤ confirmedBy app t := by
  refine List.countP_mono_left fun c _ hlt => ?_
  rw [Ts.lt, decide_eq_true_eq] at hlt
  exact hlt.1

theorem Ordered.exposure_le (hord : Ordered app) (hsent : SentOnce app) (t : Ts) :
    (exposure app (some t) : ℤ) ≤ (sentBy app t : ℤ) - confirmedBefore app t := by
  have heq := hord.exposure_eq hsent t
  have hle : confirmedBefore app t ≤ confirmedBy app t := confirmedBefore_le t
  omega

/-- Where nothing is confirmed at the time itself. -/
theorem Ordered.exposure_eq_of_apart (hord : Ordered app) (hsent : SentOnce app) {t : Ts}
    (hapart : ∀ c ∈ app.ofEvent .confirmed, c.ts ≠ t) :
    (exposure app (some t) : ℤ) = (sentBy app t : ℤ) - confirmedBefore app t := by
  have heq := hord.exposure_eq hsent t
  have hsame : confirmedBefore app t = confirmedBy app t :=
    List.countP_congr fun c hc => by simp [Ts.lt, hapart c hc]
  omega

/-- No message is sent at the time of a confirmation. -/
def Apart (app : Ledger) : Prop := ∀ e ∈ app.ofEvent .sent, ∀ c ∈ app.ofEvent .confirmed, c.ts ≠ e.ts

/-- A ledger in which one message is confirmed when the next is sent. -/
def someTie : Ledger := ⟨[⟨.sent, 1, "u1".toList, .fin 1⟩, ⟨.sent, 2, "u2".toList, .fin 2⟩,
  ⟨.confirmed, 1, "u1".toList, .fin 2⟩, ⟨.confirmed, 2, "u2".toList, .fin 3⟩]⟩

theorem someTie_law : Clocked someTie ∧ SentOnce someTie ∧ Ordered someTie :=
  ⟨by unfold Clocked; decide, by unfold SentOnce; decide, by decide, by decide⟩

end
end Dr
end MqResiliency
