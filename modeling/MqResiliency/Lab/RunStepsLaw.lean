/-
# What a run of the loop does

Of a run its commands, sleeps and timings are looked at (`see`). A step that
was tried (`Tried`) has the exit codes of its attempts, which are those of a
bounded retry, and they determine what is seen of it (`Tried.deeds`).

`conducted`: whatever the commands exit with, the run shows the steps in order,
each as it was tried, up to the end of the list or to the first step that fails
(`Conducted`).

Key definitions: `Tried`, `Conducted`. Key theorem: `conducted`.
-/
import MqResiliency.Lab.RunSteps
import MqResiliency.Lib.Retry
import MqResiliency.Lib.Seen

namespace MqResiliency
namespace Lab
namespace Run

open Py Perf Prog

/-- What is looked at in a run. -/
inductive Deed : Type where
  | ran (c : Command) (exitCode : ℤ)
  | slept (seconds : ℚ)
  | recorded (t : StepTiming)

def see : Exchange Cmd Ans → List Deed
  | ⟨.run c, ran⟩ => [.ran c ran.exitCode]
  | ⟨.sleep seconds, _⟩ => [.slept seconds]
  | ⟨.perf t, _⟩ => [.recorded t]
  | _ => []

/-! ### A step that was tried -/

/-- The sleep before retry `k` of a step. -/
def CommandStep.delay (step : CommandStep) (k : ℕ) : ℚ := step.retry.elim 0 (·.delayBefore k)

/-- The attempts that exit so, with the sleeps between them; `k` is the first
retry among them. -/
def retried (step : CommandStep) : ℕ → List ℤ → List Deed
  | _, [] => []
  | _, [e] => [.ran step.command e]
  | k, e :: es => .ran step.command e :: .slept (step.delay k) :: retried step (k + 1) es

/-- A step, the exit codes of its attempts, and the seconds of the last. -/
structure Tried : Type where
  step : CommandStep
  exits : List ℤ
  seconds : ℚ
  attempts : Attempts (· ≠ 0) step.allowed exits

/-- The step succeeded. -/
def Tried.Ok (t : Tried) : Prop := t.exits.getLast? = some 0

instance (t : Tried) : Decidable t.Ok := inferInstanceAs (Decidable (_ = _))

/-- All that is seen of the step. -/
def Tried.deeds (t : Tried) : List Deed :=
  retried t.step 1 t.exits ++
    [.recorded ⟨t.step.phase, t.step.label, t.seconds, t.exits.length - 1, decide t.Ok⟩]

/-- The failure that ends a run. -/
structure Tried.Fails (t : Tried) (e : StepFailed) : Prop where
  label : e.label = t.step.label
  exitCode : t.exits.getLast? = some e.exitCode
  nonzero : e.exitCode ≠ 0
  spent : t.exits.length = t.step.allowed
  elapsed : e.elapsed = t.seconds
  retries : e.retries + 1 = t.exits.length

/-- The steps were tried in order: all, and each succeeded, or up to the first
that failed, and the run ended so. -/
def Conducted (steps : List CommandStep) (ds : List Deed) (r : Except StepFailed Unit) : Prop :=
  ∃ tried : List Tried, ds = tried.flatMap Tried.deeds ∧
    (tried.map Tried.step = steps ∧ (∀ t ∈ tried, t.Ok) ∧ r = .ok () ∨
      ∃ before t e, tried = before ++ [t] ∧ tried.map Tried.step <+: steps ∧ (∀ b ∈ before, b.Ok) ∧ t.Fails e ∧
        r = .error e)

theorem Tried.length_pos (t : Tried) : 0 < t.exits.length := List.length_pos_iff.mpr t.attempts.made

theorem Tried.Fails.deeds {t : Tried} {e : StepFailed} (h : t.Fails e) : t.deeds =
    retried t.step 1 t.exits ++ [.recorded ⟨t.step.phase, t.step.label, e.elapsed, e.retries, false⟩] := by
  have hnot : ¬ t.Ok := fun hok => h.nonzero (Option.some.inj (h.exitCode.symm.trans hok))
  have hretries : (t.exits.length : ℤ) - 1 = e.retries := by
    have := h.retries
    omega
  rw [Tried.deeds, hretries, h.elapsed, decide_eq_false hnot]

theorem Tried.Ok.deeds {t : Tried} (h : t.Ok) : t.deeds = retried t.step 1 t.exits ++
    [.recorded ⟨t.step.phase, t.step.label, t.seconds, (t.exits.length - 1 : ℕ), true⟩] := by
  have hretries : (t.exits.length : ℤ) - 1 = (t.exits.length - 1 : ℕ) := by
    have := t.length_pos
    omega
  rw [Tried.deeds, hretries, decide_eq_true h]

/-! ### What is not looked at -/

theorem silent_now : Silent see now := silent_ask fun _ => rfl

theorem silent_wait : Silent see wait := silent_ask fun _ => rfl

theorem silent_tell (t : Told) : Silent see (tell t) :=
  (silent_ask (c := Cmd.render t) fun _ => rfl).then fun _ => silent_ask fun _ => rfl

theorem silent_sink : ∀ lines : List Str, Silent see (sink lines)
  | [] => silent_pure ()
  | line :: lines => (silent_tell (.output line)).then fun _ => silent_sink lines

/-! ### The attempts of a step -/

/-- What the attempts from here on show, when `made` were made. -/
def Attempted (step : CommandStep) (made : ℕ) (ds : List Deed) (r : Except StepFailed (ℚ × ℕ)) : Prop :=
  ∃ exits seconds, Attempts (· ≠ 0) (step.allowed - made) exits ∧ ds = retried step (made + 1) exits ∧
    (exits.getLast? = some 0 ∧ r = .ok (seconds, made + exits.length - 1) ∨
      ∃ e, e ≠ 0 ∧ exits.getLast? = some e ∧ r = .error ⟨step.label, e, seconds, made + exits.length - 1⟩)

/-- The last attempt fails, and no other is allowed. -/
theorem yields_stepFailed {step : CommandStep} {made : ℕ} {e : ℤ} (seconds : ℚ) (he : e ≠ 0)
    (hspent : step.allowed = made + 1) :
    (stepFailed step e seconds (made + 1 - 1)).Yields see fun ds r =>
      Attempted step made ([.ran step.command e] ++ ds) r := by
  refine (silent_tell _).then fun _ => yields_throw ?_
  refine ⟨[e], seconds, ?_, rfl, .inr ⟨e, he, rfl, rfl⟩⟩
  rw [hspent, Nat.add_sub_cancel_left]
  exact Attempts.last (.inr rfl)

/-- Another attempt is made, and the rest follow. -/
theorem Attempted.next {step : CommandStep} {made : ℕ} {e : ℤ} {ds : List Deed} {r : Except StepFailed (ℚ × ℕ)}
    (he : e ≠ 0) (hlt : made < step.allowed) (h : Attempted step (made + 1) ds r) :
    Attempted step made (.ran step.command e :: .slept (step.delay (made + 1)) :: ds) r := by
  obtain ⟨exits, seconds, hatt, rfl, hr⟩ := h
  obtain ⟨e', es, rfl⟩ := List.exists_cons_of_ne_nil hatt.made
  have hleft : step.allowed - made = step.allowed - (made + 1) + 1 := by omega
  have hlen : made + 1 + (e' :: es).length - 1 = made + (e :: e' :: es).length - 1 := by
    simp only [List.length_cons]
    omega
  refine ⟨e :: e' :: es, seconds, hleft ▸ hatt.next he, rfl, ?_⟩
  rw [List.getLast?_cons_cons, ← hlen]
  exact hr

/-- **The attempts of a step.** -/
theorem yields_runStepWithRetry (step : CommandStep) (made : ℕ) (hlt : made < step.allowed) :
    (runStepWithRetry step made).Yields see (Attempted step made) := by
  unfold runStepWithRetry
  refine silent_now.then fun started => yields_seen fun ran => ?_
  refine (silent_sink ran.output).then fun _ => silent_now.then fun ended => ?_
  by_cases hzero : ran.exitCode = 0
  · have hleft : step.allowed - made = step.allowed - made - 1 + 1 := by omega
    rw [if_pos hzero]
    refine yields_pure ⟨[0], ended - started, ?_, ?_, .inl ⟨rfl, rfl⟩⟩
    · rw [hleft]
      exact Attempts.last (.inl fun h => h rfl)
    · simp [see, retried, hzero]
  · rw [if_neg hzero]
    split
    · rename_i hretry
      have hallowed : step.allowed = 1 := by rw [CommandStep.allowed, hretry, Option.elim_none]
      exact yields_stepFailed (ended - started) hzero (by omega)
    · rename_i policy hretry
      have hallowed : step.allowed = policy.attempts.toNat := by rw [CommandStep.allowed, hretry, Option.elim_some]
      split
      · rename_i hspent
        exact yields_stepFailed (ended - started) hzero (by omega)
      · rename_i hmore
        refine (silent_tell _).then fun _ => yields_seen fun _ => ?_
        refine (yields_runStepWithRetry step (made + 1) (by omega)).mono fun ds r h => ?_
        have hdelay : policy.delayBefore (made + 1) = step.delay (made + 1) := by
          rw [CommandStep.delay, hretry, Option.elim_some]
        rw [hdelay]
        exact h.next hzero hlt
termination_by step.allowed - made

/-! ### The steps of a run -/

/-- Every policy allows an attempt. -/
theorem CommandStep.allowed_pos (step : CommandStep) : 0 < step.allowed := by
  unfold allowed
  cases step.retry with
  | none => exact Nat.one_pos
  | some p =>
    have := p.attempts_pos
    rw [Option.elim_some]
    omega

theorem conducted_nil : Conducted [] [] (.ok ()) := ⟨[], rfl, .inl ⟨rfl, by simp, rfl⟩⟩

/-- A step that succeeds, and the rest. -/
theorem Conducted.cons {steps : List CommandStep} {ds : List Deed} {r : Except StepFailed Unit} {t : Tried}
    (ht : t.Ok) (h : Conducted steps ds r) : Conducted (t.step :: steps) (t.deeds ++ ds) r := by
  obtain ⟨tried, rfl, ⟨hsteps, hok, rfl⟩ | ⟨before, last, e, rfl, hsteps, hok, hfails, rfl⟩⟩ := h
  · refine ⟨t :: tried, rfl, .inl ⟨?_, ?_, rfl⟩⟩
    · rw [List.map_cons, hsteps]
    · exact List.forall_mem_cons.mpr ⟨ht, hok⟩
  · refine ⟨t :: (before ++ [last]), rfl, .inr ⟨t :: before, last, e, rfl, ?_, ?_, hfails, rfl⟩⟩
    · exact List.cons_prefix_cons.mpr ⟨rfl, hsteps⟩
    · exact List.forall_mem_cons.mpr ⟨ht, hok⟩

/-- A step that fails, and no other. -/
theorem conducted_fails {steps : List CommandStep} {t : Tried} {e : StepFailed} (h : t.Fails e) :
    Conducted (t.step :: steps) t.deeds (.error e) :=
  ⟨[t], (List.append_nil _).symm, .inr ⟨[], t, e, rfl, by simp, by simp, h, rfl⟩⟩

/-- What the first step shows, with its record. -/
theorem Attempted.tried {step : CommandStep} {ds : List Deed} {r : Except StepFailed (ℚ × ℕ)}
    (h : Attempted step 0 ds r) : ∃ t : Tried, t.step = step ∧
      (t.Ok ∧ r = .ok (t.seconds, t.exits.length - 1) ∨ ∃ e, t.Fails e ∧ r = .error e) ∧ ds = retried step 1 t.exits := by
  obtain ⟨exits, seconds, hatt, rfl, hr⟩ := h
  have hlen : 0 < exits.length := List.length_pos_iff.mpr hatt.made
  refine ⟨⟨step, exits, seconds, hatt⟩, rfl, ?_, rfl⟩
  rcases hr with ⟨hlast, rfl⟩ | ⟨e, he, hlast, rfl⟩
  · exact .inl ⟨hlast, by rw [Nat.zero_add]⟩
  · -- an attempt that failed was the last only because no other was allowed
    have hspent : exits.length = step.allowed := by
      by_contra hne
      have hle : exits.length ≤ step.allowed := hatt.bounded
      exact hatt.ended (by omega) e hlast he
    refine .inr ⟨_, ⟨rfl, hlast, he, hspent, rfl, ?_⟩, rfl⟩
    show 0 + exits.length - 1 + 1 = exits.length
    omega

theorem yields_runStepsFrom (total : ℕ) (stepMode : Bool) : ∀ (steps : List CommandStep) (index completed : ℕ)
    (elapsedTotal : ℚ), (runStepsFrom total stepMode index completed elapsedTotal steps).Yields see (Conducted steps)
  | [], index, completed, elapsedTotal =>
    (silent_tell (.summary completed total elapsedTotal)).mono fun ds r h => by
      obtain ⟨rfl, ⟨⟩, rfl⟩ := h
      exact conducted_nil
  | step :: steps, index, completed, elapsedTotal => by
    refine (silent_tell _).then fun _ => ?_
    refine Yields.bind (P := fun ds r => ∃ t : Tried, t.step = step ∧
      (t.Ok ∧ r = .ok (t.seconds, t.exits.length - 1) ∧ ds = retried step 1 t.exits ∨
        ∃ e, t.Fails e ∧ r = .error e ∧ ds = t.deeds)) ?_ ?_ ?_
    · refine (yields_runStepWithRetry step 0 step.allowed_pos).tryCatch (fun ds a h => ?_) fun ds e h => ?_
      · obtain ⟨t, ht, ⟨hok, hr⟩ | ⟨e, -, hr⟩, rfl⟩ := h.tried
        · exact ⟨t, ht, .inl ⟨hok, hr, rfl⟩⟩
        · cases hr
      · obtain ⟨t, rfl, ⟨-, hr⟩ | ⟨e, hfails, hr⟩, rfl⟩ := h.tried
        · cases hr
        · obtain rfl := Except.error.inj hr
          refine yields_seen fun _ => yields_throw ⟨t, rfl, .inr ⟨_, hfails, rfl, ?_⟩⟩
          rw [List.append_nil, hfails.deeds]
          rfl
    · intro ds a h
      obtain ⟨t, rfl, ⟨hok, hr, rfl⟩ | ⟨e, -, hr, -⟩⟩ := h
      · obtain rfl := Except.ok.inj hr
        refine (silent_tell _).then fun _ => yields_seen fun _ => ?_
        have hrest : (runStepsFrom total stepMode (index + 1) (completed + 1) (elapsedTotal + t.seconds) steps).Yields
            see fun ds r => Conducted (t.step :: steps) (t.deeds ++ ds) r :=
          (yields_runStepsFrom total stepMode steps _ _ _).mono fun ds r h => h.cons hok
        rw [hok.deeds] at hrest
        simp only [List.append_assoc] at hrest
        by_cases hwait : stepMode ∧ index < total
        · rw [if_pos hwait]
          exact silent_wait.then fun _ => hrest
        · rw [if_neg hwait]
          exact hrest
      · cases hr
    · intro ds e h
      obtain ⟨t, rfl, ⟨-, hr, -⟩ | ⟨e', hfails, hr, rfl⟩⟩ := h
      · cases hr
      · obtain rfl := Except.error.inj hr
        exact conducted_fails hfails

/-- **What a run of the loop does**, whatever the commands exit with. -/
theorem conducted (steps : List CommandStep) (stepMode : Bool) (o : Oracle Cmd Ans) :
    ∃ r, ((runSteps steps stepMode).run o []).2 = some r ∧
      Conducted steps (((runSteps steps stepMode).run o []).1.flatMap see) r :=
  (yields_runStepsFrom steps.length stepMode steps 1 0 0).run o

end Run
end Lab
end MqResiliency
