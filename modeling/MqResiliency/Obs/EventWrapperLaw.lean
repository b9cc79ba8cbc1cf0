/-
# When the wrapper gives up

The wrapper is meant to exit at the first fast exit of `amqsevt` that ends
`OPEN_RETRY` seconds or more after the first of its burst did (`Due`), and with
a status that is not 0 (`Honest`).

It exits at the first fast exit at which the clock, read again, has reached the
deadline (`Late`, `exitsAt_iff`), with the status of `amqsevt`, which is 0 if
it stopped by itself. `wrapper_honest_iff` says when that is what was meant.

Key definitions: `burst`, `Due`, `Late`, `Honest`.
Key theorems: `exitsAt_iff`, `wrapper_honest_iff`, `clean_exits_pass`.
-/
import Mathlib.Data.Nat.Find
import MqResiliency.Obs.EventWrapper

namespace MqResiliency
namespace EventWrapper

/-! ### Bursts -/

/-- `amqsevt` exited fast. -/
def Lap.Fast (lap : Lap) : Prop := lap.ended - lap.start < healthyRun

instance (lap : Lap) : Decidable lap.Fast := inferInstanceAs (Decidable (_ < _))

section
variable (v : Settings) (laps : Laps)

/-- The first lap of the unbroken run of fast exits that the laps before this
one end with. -/
def burst : ℕ → Option ℕ
  | 0 => none
  | k + 1 => if (laps.lap k).Fast then some ((burst k).getD k) else none

/-- Giving up is due: the exit is fast, and it ends so long after the first of
its burst ended. -/
def Due (k : ℕ) : Prop :=
  ∃ j, burst laps (k + 1) = some j ∧ v.openRetry ≤ (laps.lap k).ended - (laps.lap j).ended

/-- The deadline of a burst that begins with this lap. -/
def deadline (j : ℕ) : ℤ := wrap64 ((laps.lap j).mark + v.openRetry)

/-- The exit is fast, and the deadline of its burst is reached when the wrapper
reads the clock again. -/
def Late (k : ℕ) : Prop := ∃ j, burst laps (k + 1) = some j ∧ deadline v laps j ≤ (laps.lap k).check

/-- The wrapper exits in this lap, with this status. -/
def ExitsAt (k status : ℕ) : Prop :=
  (∃ failDeadline, after v laps k = .looping failDeadline) ∧ after v laps (k + 1) = .exited status

/-- It holds of this number, and of none before. -/
def First (P : ℕ → Prop) (k : ℕ) : Prop := P k ∧ ∀ i < k, ¬ P i

/-- The wrapper gives up just when it is due, if it ever may, and visibly. -/
structure Honest : Prop where
  forever : v.openRetry = 0 → ∀ k status, ¬ ExitsAt v laps k status
  due : v.openRetry ≠ 0 → ∀ k, (∃ status, ExitsAt v laps k status) ↔ First (Due v laps) k
  visible : ∀ k status, ExitsAt v laps k status → status ≠ 0

end

section
variable {v : Settings} {laps : Laps}

/-- A burst is an unbroken run of fast exits, as long as it can be. -/
theorem burst_eq_some : ∀ {k j : ℕ}, burst laps k = some j ↔
    j < k ∧ (∀ i, j ≤ i → i < k → (laps.lap i).Fast) ∧ (0 < j → ¬ (laps.lap (j - 1)).Fast)
  | 0, j => by
    refine ⟨fun h => (Option.some_ne_none j h.symm).elim, fun h => absurd h.1 (Nat.not_lt_zero j)⟩
  | k + 1, j => by
    unfold burst
    by_cases hfast : (laps.lap k).Fast
    · rw [if_pos hfast, Option.some_inj]
      have hmore : ∀ i, j ≤ i → i < k + 1 → (∀ i, j ≤ i → i < k → (laps.lap i).Fast) → (laps.lap i).Fast := by
        intro i hj hi hall
        by_cases hik : i = k
        · exact hik ▸ hfast
        · exact hall i hj (by omega)
      cases hprev : burst laps k with
      | some j' =>
        obtain ⟨hlt, hall, hbefore⟩ := burst_eq_some.mp hprev
        rw [Option.getD_some]
        constructor
        · rintro rfl
          exact ⟨by omega, fun i hj hi => hmore i hj hi hall, hbefore⟩
        · intro ⟨hj, hall', hbefore'⟩
          -- the lap before `k` is fast, so the burst is older
          have hjk : j < k := by
            by_contra hge
            obtain rfl : j = k := by omega
            exact hbefore' (by omega) (hall (j - 1) (by omega) (by omega))
          have hsame := burst_eq_some.mpr ⟨hjk, fun i hj hi => hall' i hj (by omega), hbefore'⟩
          exact Option.some.inj (hprev.symm.trans hsame)
      | none =>
        rw [Option.getD_none]
        constructor
        · rintro rfl
          refine ⟨by omega, fun i hj hi => by rwa [show i = k by omega], fun hpos hlast => ?_⟩
          obtain ⟨k', rfl⟩ : ∃ k', k = k' + 1 := ⟨k - 1, by omega⟩
          rw [Nat.add_sub_cancel] at hlast
          rw [burst, if_pos hlast] at hprev
          cases hprev
        · intro ⟨hj, hall', hbefore'⟩
          by_contra hne
          have hsame : burst laps k = some j :=
            burst_eq_some.mpr ⟨by omega, fun i hj hi => hall' i hj (by omega), hbefore'⟩
          rw [hprev] at hsame
          cases hsame
    · rw [if_neg hfast]
      refine ⟨fun h => (Option.some_ne_none j h.symm).elim, fun ⟨hj, hall, _⟩ => absurd ?_ hfast⟩
      exact hall k (by omega) (by omega)

/-! ### Laps of the loop -/

/-- A run time fits the shell's integers. -/
theorem wrap64_ran (lap : Lap) : wrap64 (lap.ended - lap.start) = lap.ended - lap.start := by
  have := lap.start_nonneg
  have := lap.start_le
  have := lap.ended_le
  have := lap.mark_le
  have := lap.check_lt
  apply Int.bmod_eq_of_le <;> omega

theorem turn_of_not_fast {failDeadline : ℤ} {lap : Lap} (h : ¬ lap.Fast) :
    (turn v failDeadline lap).2 = .looping 0 := by
  have hran : healthyRun ≤ lap.ended - lap.start := not_lt.mp h
  unfold turn
  simp only [wrap64_ran, if_pos hran]

theorem turn_of_fast {failDeadline : ℤ} {lap : Lap} (h : lap.Fast) (hretry : v.openRetry ≠ 0) :
    (turn v failDeadline lap).2 =
      let failDeadline := if failDeadline = 0 then wrap64 (lap.mark + v.openRetry) else failDeadline
      if failDeadline ≤ lap.check then .exited lap.rc else .looping failDeadline := by
  have hran : ¬ healthyRun ≤ lap.ended - lap.start := not_le.mpr h
  unfold turn
  simp only [wrap64_ran, if_neg hran, hretry, ne_eq, not_false_eq_true, true_and, apply_ite Prod.snd]

/-- The deadline of the burst under way, 0 if none is. -/
def underWay (v : Settings) (laps : Laps) (k : ℕ) : ℤ := (burst laps k).elim 0 (deadline v laps)

/-- The loop has the deadline of the burst under way, which tells a burst from none. -/
structure Inv (v : Settings) (laps : Laps) (k : ℕ) (failDeadline : ℤ) : Prop where
  eq : failDeadline = underWay v laps k
  sentinel : ∀ j, burst laps k = some j → failDeadline ≠ 0
  early : ∀ i < k, ¬ Late v laps i

/-- In a fast lap the wrapper compares the clock with the deadline of its burst. -/
theorem Inv.turn {k : ℕ} {failDeadline : ℤ} (h : Inv v laps k failDeadline) (hretry : v.openRetry ≠ 0)
    (hfast : (laps.lap k).Fast) : ∃ j, burst laps (k + 1) = some j ∧ (turn v failDeadline (laps.lap k)).2 =
      if deadline v laps j ≤ (laps.lap k).check then .exited (laps.lap k).rc else .looping (deadline v laps j) := by
  refine ⟨(burst laps k).getD k, by rw [burst, if_pos hfast], ?_⟩
  rw [turn_of_fast hfast hretry]
  cases hburst : burst laps k with
  | none =>
    have hzero : failDeadline = 0 := by rw [h.eq, underWay, hburst, Option.elim_none]
    simp only [if_pos hzero]
    rfl
  | some j =>
    have hdeadline : failDeadline = deadline v laps j := by rw [h.eq, underWay, hburst, Option.elim_some]
    have hne : deadline v laps j ≠ 0 := hdeadline ▸ h.sentinel j hburst
    simp only [hdeadline, if_neg hne, Option.getD_some]

theorem inv_after (hretry : v.openRetry ≠ 0) : ∀ {k : ℕ} {failDeadline : ℤ},
    after v laps k = .looping failDeadline → Inv v laps k failDeadline
  | 0, failDeadline, h => by
    obtain rfl : 0 = failDeadline := State.looping.inj h
    exact ⟨rfl, fun j hj => absurd hj (by simp [burst]), fun i hi => absurd hi (Nat.not_lt_zero i)⟩
  | k + 1, failDeadline, h => by
    unfold after at h
    cases hprev : after v laps k with
    | exited status => simp [hprev] at h
    | looping before =>
      have hinv := inv_after hretry hprev
      rw [hprev] at h
      dsimp only at h
      by_cases hfast : (laps.lap k).Fast
      · obtain ⟨j, hburst, hturn⟩ := hinv.turn hretry hfast
        rw [hturn] at h
        by_cases hlate : deadline v laps j ≤ (laps.lap k).check
        · rw [if_pos hlate] at h
          cases h
        · rw [if_neg hlate] at h
          obtain rfl := State.looping.inj h
          refine ⟨by rw [underWay, hburst, Option.elim_some], fun _ _ hzero => ?_, fun i hi hi' => ?_⟩
          · -- a deadline that is not reached lies ahead of a clock that is not negative
            have := (laps.lap k).start_nonneg
            have := (laps.lap k).start_le
            have := (laps.lap k).ended_le
            have := (laps.lap k).mark_le
            omega
          · by_cases hik : i = k
            · obtain ⟨j', hburst', hle⟩ := hi'
              rw [hik, hburst] at hburst'
              obtain rfl := Option.some.inj hburst'
              exact hlate (hik ▸ hle)
            · exact hinv.early i (by omega) hi'
      · rw [turn_of_not_fast hfast] at h
        obtain rfl := State.looping.inj h
        have hnone : burst laps (k + 1) = none := by rw [burst, if_neg hfast]
        refine ⟨by rw [underWay, hnone, Option.elim_none], fun j hj => ?_, fun i hi hi' => ?_⟩
        · rw [hnone] at hj
          cases hj
        · by_cases hik : i = k
          · obtain ⟨j', hburst', -⟩ := hi'
            rw [hik, hnone] at hburst'
            cases hburst'
          · exact hinv.early i (by omega) hi'

/-- A wrapper that has exited did so in a lap. -/
theorem exists_exitsAt : ∀ {k status : ℕ}, after v laps k = .exited status → ∃ i < k, ExitsAt v laps i status
  | 0, _, h => by cases h
  | k + 1, status, h => by
    cases hprev : after v laps k with
    | looping failDeadline => exact ⟨k, Nat.lt_succ_self k, ⟨failDeadline, hprev⟩, h⟩
    | exited status' =>
      have hsame : after v laps (k + 1) = .exited status' := by rw [after, hprev]
      obtain rfl := State.exited.inj (h.symm.trans hsame)
      obtain ⟨i, hi, hexits⟩ := exists_exitsAt hprev
      exact ⟨i, Nat.lt_succ_of_lt hi, hexits⟩

/-- **When the wrapper exits**, and with which status. -/
theorem exitsAt_iff (hretry : v.openRetry ≠ 0) {k status : ℕ} :
    ExitsAt v laps k status ↔ First (Late v laps) k ∧ status = (laps.lap k).rc := by
  have hlap : ∀ {k status : ℕ}, ExitsAt v laps k status → Late v laps k ∧ status = (laps.lap k).rc := by
    intro k status ⟨⟨failDeadline, hloop⟩, hexit⟩
    rw [after, hloop] at hexit
    dsimp only at hexit
    by_cases hfast : (laps.lap k).Fast
    · obtain ⟨j, hburst, hturn⟩ := (inv_after hretry hloop).turn hretry hfast
      rw [hturn] at hexit
      by_cases hlate : deadline v laps j ≤ (laps.lap k).check
      · rw [if_pos hlate] at hexit
        exact ⟨⟨j, hburst, hlate⟩, (State.exited.inj hexit).symm⟩
      · rw [if_neg hlate] at hexit
        cases hexit
    · rw [turn_of_not_fast hfast] at hexit
      cases hexit
  constructor
  · intro h
    obtain ⟨failDeadline, hloop⟩ := h.1
    exact ⟨⟨(hlap h).1, (inv_after hretry hloop).early⟩, (hlap h).2⟩
  · rintro ⟨⟨⟨j, hburst, hle⟩, hfirst⟩, rfl⟩
    cases hstate : after v laps k with
    | exited status =>
      obtain ⟨i, hi, hexits⟩ := exists_exitsAt hstate
      exact absurd (hlap hexits).1 (hfirst i hi)
    | looping failDeadline =>
      have hfast : (laps.lap k).Fast := (burst_eq_some.mp hburst).2.1 k (by
        have := (burst_eq_some.mp hburst).1
        omega) (Nat.lt_succ_self k)
      obtain ⟨j', hburst', hturn⟩ := (inv_after hretry hstate).turn hretry hfast
      obtain rfl : j = j' := Option.some.inj (hburst.symm.trans hburst')
      refine ⟨⟨failDeadline, hstate⟩, ?_⟩
      rw [after, hstate]
      dsimp only
      rw [hturn, if_pos hle]

/-- A wrapper that may try forever does. -/
theorem not_exitsAt (hretry : v.openRetry = 0) (k status : ℕ) : ¬ ExitsAt v laps k status := by
  intro ⟨⟨failDeadline, hloop⟩, hexit⟩
  rw [after, hloop] at hexit
  dsimp only [turn] at hexit
  simp only [hretry, ne_eq, not_true_eq_false, false_and, if_false] at hexit
  split at hexit <;> cases hexit

/-! ### What was meant -/

/-- At every fast exit before which giving up was not due, the readings of the
clock for the deadline are as far apart as the exits are, as far as the wrapper
is concerned; and where giving up is due `amqsevt` did not stop by itself. -/
def Clear (v : Settings) (laps : Laps) : Prop :=
  ∀ j k, burst laps (k + 1) = some j → (∀ i < k, ¬ Due v laps i) →
    (deadline v laps j ≤ (laps.lap k).check ↔ v.openRetry ≤ (laps.lap k).ended - (laps.lap j).ended) ∧
      (v.openRetry ≤ (laps.lap k).ended - (laps.lap j).ended → (laps.lap k).rc ≠ 0)

/-- If two properties agree on each number before which the first held of none,
their first numbers agree. -/
theorem first_iff_of_agree {P Q : ℕ → Prop} (h : ∀ k, (∀ i < k, ¬ P i) → (P k ↔ Q k)) {k : ℕ} :
    First P k ↔ First Q k := by
  have hnone : (∀ i < k, ¬ P i) ↔ ∀ i < k, ¬ Q i := by
    constructor
    · intro hP i hi hQ
      exact hP i hi ((h i fun i' hi' => hP i' (by omega)).mpr hQ)
    · intro hQ i
      induction i using Nat.strong_induction_on with
      | h i ih => exact fun hi hP => hQ i hi ((h i fun i' hi' => ih i' hi' (by omega)).mp hP)
  exact ⟨fun ⟨hP, hbefore⟩ => ⟨(h k hbefore).mp hP, hnone.mp hbefore⟩,
    fun ⟨hQ, hbefore⟩ => ⟨(h k (hnone.mpr hbefore)).mpr hQ, hnone.mpr hbefore⟩⟩

/-- And if their first numbers agree, they agree there. -/
theorem agree_of_first_iff {P Q : ℕ → Prop} (h : ∀ k, First P k ↔ First Q k) {k : ℕ} (hbefore : ∀ i < k, ¬ P i) :
    P k ↔ Q k := by
  classical
  constructor
  · exact fun hP => ((h k).mp ⟨hP, hbefore⟩).1
  · intro hQ
    have hex : ∃ k, Q k := ⟨k, hQ⟩
    have hfirst : First Q (Nat.find hex) := ⟨Nat.find_spec hex, fun i hi => Nat.find_min hex hi⟩
    have hP := ((h _).mpr hfirst).1
    by_cases hlt : Nat.find hex < k
    · exact absurd hP (hbefore _ hlt)
    · obtain rfl : k = Nat.find hex := Nat.le_antisymm (by omega) (Nat.find_min' hex hQ)
      exact hP

/-- **When the wrapper gives up as it is meant to.** -/
theorem wrapper_honest_iff (v : Settings) (laps : Laps) : Honest v laps ↔ v.openRetry = 0 ∨ Clear v laps := by
  by_cases hretry : v.openRetry = 0
  · refine ⟨fun _ => .inl hretry, fun _ => ⟨fun _ => not_exitsAt hretry, fun h => absurd hretry h, ?_⟩⟩
    exact fun k status h => absurd h (not_exitsAt hretry k status)
  · have hexits : ∀ k, (∃ status, ExitsAt v laps k status) ↔ First (Late v laps) k := fun k => by
      simp only [exitsAt_iff hretry, exists_and_left, exists_eq, and_true]
    have hone : ∀ {k j}, burst laps (k + 1) = some j →
        ((Due v laps k ↔ v.openRetry ≤ (laps.lap k).ended - (laps.lap j).ended) ∧
          (Late v laps k ↔ deadline v laps j ≤ (laps.lap k).check)) := fun {k j} hburst => by
      unfold Due Late
      simp [hburst]
    constructor
    · intro h
      refine .inr fun j k hburst hbefore => ?_
      obtain ⟨hdue, hlate⟩ := hone hburst
      have hfirst : ∀ k, First (Due v laps) k ↔ First (Late v laps) k := fun k => (h.due hretry k).symm.trans (hexits k)
      have hagree := agree_of_first_iff hfirst hbefore
      rw [← hdue, ← hlate]
      refine ⟨hagree.symm, fun hd => ?_⟩
      have hexit : ExitsAt v laps k (laps.lap k).rc :=
        (exitsAt_iff hretry).mpr ⟨(hfirst k).mp ⟨hd, hbefore⟩, rfl⟩
      exact h.visible k _ hexit
    · rintro (h | hclear)
      · exact absurd h hretry
      · have hagree : ∀ k, (∀ i < k, ¬ Due v laps i) → (Due v laps k ↔ Late v laps k) := by
          intro k hbefore
          cases hburst : burst laps (k + 1) with
          | none => simp [Due, Late, hburst]
          | some j =>
            obtain ⟨hdue, hlate⟩ := hone hburst
            rw [hdue, hlate]
            exact (hclear j k hburst hbefore).1.symm
        refine ⟨fun h => absurd h hretry, fun _ k => (hexits k).trans (first_iff_of_agree hagree).symm, ?_⟩
        intro k status h
        obtain ⟨hfirst, rfl⟩ := (exitsAt_iff hretry).mp h
        obtain ⟨⟨j, hburst, hdue⟩, hbefore⟩ := (first_iff_of_agree hagree).mpr hfirst
        exact (hclear j k hburst hbefore).2 hdue

end

/-! ### A collector that stops by itself -/

/-- `amqsevt` runs a second every 11 seconds and exits with this status, until
the clock stands still. -/
def everyEleven (rc : ℕ) : Laps where
  lap k :=
    { rc := rc
      stderr := []
      start := 1000 + 11 * min k 100
      ended := 1000 + 11 * min k 100 + if k < 100 then 1 else 0
      mark := 1000 + 11 * min k 100 + if k < 100 then 1 else 0
      check := 1000 + 11 * min k 100 + if k < 100 then 1 else 0
      start_nonneg := by omega
      start_le := by split <;> omega
      ended_le := le_rfl
      mark_le := le_rfl
      check_lt := by split <;> omega }
  later k := by
    dsimp only
    split <;> omega

/-- After 90 seconds of exits with status 0, `OPEN_RETRY` as here, the wrapper exits with status 0. -/
theorem clean_exits_pass : let v : Settings := ⟨10, 90, by decide, by decide⟩
    ExitsAt v (everyEleven 0) 9 0 ∧ ¬ Honest v (everyEleven 0) := by
  intro v
  have hexits : ExitsAt v (everyEleven 0) 9 0 := ⟨⟨1091, by decide +kernel⟩, by decide +kernel⟩
  exact ⟨hexits, fun h => h.visible 9 0 hexits rfl⟩

end EventWrapper
end MqResiliency
