/-
# The books of a phase

Of a measured phase the commits are looked at that succeeded, and the probes of
the queue's depth that failed (`see`). An attempt is recorded as a success or
as a failure (`Attempted`), but for one whose probe fails after its commit:
that is recorded as both.

`balanced_iff`: against any answers, a measured phase that ends has books that
balance (`Balanced`) if and only if no probe of its failed.
-/
import MqResiliency.Bench.Phase
import MqResiliency.Lib.Seen

namespace MqResiliency
namespace Bench

open Py Mq Prog

/-- What is looked at in a phase. -/
inductive Deed : Type where
  | committed
  | probeFailed
deriving DecidableEq

def see : Exchange Cmd Ans → List Deed
  | ⟨.mqi .commit, .ok _⟩ => [.committed]
  | ⟨.mqi (.openQ _), .error _⟩ => [.probeFailed]
  | ⟨.mqi .inquire, .error _⟩ => [.probeFailed]
  | ⟨.mqi .closeQ, .error _⟩ => [.probeFailed]
  | _ => []

/-- Every attempt is counted once: as a success with its latency, or as a
failure with its reason. -/
structure Balanced (turns commits : ℕ) (b : Books) : Prop where
  total : b.stats.total = turns
  recorded : b.stats.successes = b.latencies.length
  committed : b.latencies.length = commits
  failures : b.stats.failures = b.reasons.length
  once : b.latencies.length + b.reasons.length = turns

/-! ### What a step does -/

theorem silent_clock : Silent see clock := silent_ask fun _ => rfl

theorem silent_connect (connected : Bool) : Silent see (connect connected) := by
  unfold connect
  split
  · exact silent_pure _
  · exact silent_ask fun a => by cases a <;> rfl

theorem silent_disconnect (connected : Bool) : Silent see (disconnect connected) := by
  unfold disconnect
  split
  · exact (silent_ask fun a => by cases a <;> rfl).then fun _ => silent_pure ()
  · exact silent_pure ()

/-- A commit succeeds, or nothing is committed. -/
theorem yields_commitOnce (args : Args) (connected : Bool) :
    (commitOnce args connected).Yields see fun ds r => ∃ v, r = .ok v ∧
      ((∃ reason, v.2 = .error reason ∧ ds = []) ∨ ∃ dt, v.2 = .ok dt ∧ ds = [.committed]) := by
  have hrefused : ∀ (c : Bool) (reason : Reason),
      (pure (c, .error reason) : Client (Bool × Except Reason Double)).Yields see fun ds r => ∃ v, r = .ok v ∧
        ((∃ reason, v.2 = .error reason ∧ ds = []) ∨ ∃ dt, v.2 = .ok dt ∧ ds = [.committed]) := fun c reason =>
    yields_pure ⟨(c, .error reason), rfl, .inl ⟨reason, rfl, rfl⟩⟩
  refine (silent_connect connected).then fun reached => ?_
  cases reached with
  | error reason => exact hrefused false reason
  | ok _ =>
    refine Silent.then (silent_ask fun a => by cases a <;> rfl) fun put => ?_
    cases put with
    | error reason => exact hrefused true reason
    | ok _ =>
      refine silent_clock.then fun t0 => yields_seen fun done => ?_
      cases done with
      | error reason => exact hrefused true reason
      | ok _ =>
        exact silent_clock.then fun t1 => yields_pure ⟨(true, _), rfl, .inr ⟨_, rfl, rfl⟩⟩

/-- A probe finds a depth, or it is seen to fail. -/
theorem yields_currentDepth (args : Args) (connected : Bool) :
    (currentDepth args connected).Yields see fun ds r => ∃ res, r = .ok res ∧ .committed ∉ ds ∧
      ((∃ depth, res = .ok depth) ↔ .probeFailed ∉ ds) := by
  unfold currentDepth
  by_cases hc : connected
  · simp only [hc, Bool.not_true, Bool.false_eq_true, if_false]
    refine yields_seen fun opened => ?_
    cases opened with
    | error reason => exact yields_pure ⟨_, rfl, by simp [see], by simp [see]⟩
    | ok _ =>
      refine yields_seen fun depth => yields_seen fun closed => ?_
      cases closed with
      | error reason => exact yields_pure ⟨_, rfl, by cases depth <;> simp [see], by simp [see]⟩
      | ok _ =>
        refine yields_pure ⟨_, rfl, by cases depth <;> simp [see], ?_⟩
        cases depth <;> simp [see, Except.map]
  · simp only [hc, Bool.not_false, if_true]
    exact yields_pure ⟨_, rfl, by simp, by simp⟩

/-- What an attempt does to the books of a measured phase. -/
inductive Attempted (b : Books) : List Deed → Books → Prop
  | refused (reason : Reason) (c : Bool) : Attempted b [] { b.failed reason with connected := c }
  | recorded (dt : Double) (c : Bool) (depths : List Double) :
    Attempted b [.committed] { b.succeeded dt with connected := c, depths := depths }
  /-- The commit is recorded, and then the probe's failure. -/
  | spoiled (dt : Double) (reason : Reason) (c : Bool) (ds : List Deed) (committed : .committed ∉ ds)
    (probeFailed : .probeFailed ∈ ds) :
    Attempted b (.committed :: ds) { (b.succeeded dt).failed reason with connected := c }

theorem yields_onError (b : Books) (reason : Reason) :
    (onError true b reason).Yields see fun ds r => ds = [] ∧
      ∃ c, r = .ok { b.failed reason with connected := c } := by
  refine Silent.then (silent_ask fun _ => rfl) fun _ => ?_
  split
  · exact (silent_disconnect _).then fun _ => yields_pure ⟨rfl, false, rfl⟩
  · exact yields_pure ⟨rfl, b.connected, rfl⟩

/-- What the guarded part comes to: the books, and what was raised. -/
def Tried (b : Books) (ds : List Deed) (v : Books × Option Reason) : Prop :=
  (∃ reason c, v = ({ b with connected := c }, some reason) ∧ ds = []) ∨
    (∃ dt c depths, v = ({ b.succeeded dt with connected := c, depths := depths }, none) ∧ ds = [.committed]) ∨
      ∃ dt c reason ps, v = ({ b.succeeded dt with connected := c }, some reason) ∧ ds = .committed :: ps ∧
        .committed ∉ ps ∧ .probeFailed ∈ ps

theorem yields_tryCommit (args : Args) (b : Books) (i : ℕ) :
    (tryCommit args true b i).Yields see fun ds r => ∃ v, r = .ok v ∧ Tried b ds v := by
  refine (yields_commitOnce args b.connected).returned fun ds v h => ?_
  obtain ⟨c, res⟩ := v
  obtain ⟨reason, rfl, rfl⟩ | ⟨dt, rfl, rfl⟩ := h
  · exact yields_pure ⟨_, rfl, .inl ⟨reason, c, rfl, rfl⟩⟩
  · simp only [if_true]
    split
    · refine (yields_currentDepth args c).returned fun ps depth h => ?_
      obtain ⟨hnot, hiff⟩ := h
      cases depth with
      | error reason =>
        have hfailed : Deed.probeFailed ∈ ps := by
          by_contra hno
          obtain ⟨d, hd⟩ := hiff.mpr hno
          cases hd
        refine yields_pure ⟨_, rfl, .inr (.inr ⟨dt, c, reason, ps, rfl, ?_, hnot, hfailed⟩)⟩
        simp
      | ok d =>
        have hps : ps = [] := by
          have hno := hiff.mp ⟨d, rfl⟩
          refine List.eq_nil_iff_forall_not_mem.mpr fun deed hmem => ?_
          cases deed
          · exact hnot hmem
          · exact hno hmem
        subst hps
        exact yields_pure ⟨_, rfl, .inr (.inl ⟨dt, c, _, rfl, rfl⟩)⟩
    · exact yields_pure ⟨_, rfl, .inr (.inl ⟨dt, c, b.depths, rfl, rfl⟩)⟩

/-- **An attempt of the measured phase** does one of these to the books. -/
theorem yields_attempt (args : Args) (b : Books) (i : ℕ) :
    (attempt args true b i).Yields see fun ds r => ∃ b', r = .ok b' ∧ Attempted b ds b' := by
  refine (yields_tryCommit args b i).returned fun ds v h => ?_
  obtain ⟨reason, c, rfl, rfl⟩ | ⟨dt, c, depths, rfl, rfl⟩ | ⟨dt, c, reason, ps, rfl, rfl, hnot, hfailed⟩ := h
  · refine (yields_onError _ reason).mono fun ds r h => ?_
    obtain ⟨rfl, c', rfl⟩ := h
    exact ⟨_, rfl, .refused reason c'⟩
  · exact yields_pure ⟨_, rfl, .recorded dt c depths⟩
  · refine (yields_onError _ reason).mono fun ds r h => ?_
    obtain ⟨rfl, c', rfl⟩ := h
    rw [List.append_nil]
    exact ⟨_, rfl, .spoiled dt reason c' ps hnot hfailed⟩

/-! ### The loop -/

/-- What the books keep: `spoiled` attempts are counted twice, and there are
none if and only if no probe failed. -/
structure Kept (b : Books) (i : ℕ) (ds : List Deed) : Prop where
  total : ∃ spoiled : ℕ, b.stats.total = i + spoiled ∧ (spoiled = 0 ↔ .probeFailed ∉ ds)
  recorded : b.stats.total = b.latencies.length + b.reasons.length
  committed : b.latencies.length = ds.count .committed
  failures : b.stats.failures = b.reasons.length

theorem Kept.init (connected : Bool) : Kept (.fresh connected) 0 [] where
  total := ⟨0, rfl, by simp⟩
  recorded := rfl
  committed := rfl
  failures := rfl

/-- An attempt keeps the books. -/
theorem Kept.attempt {b b' : Books} {i : ℕ} {ds ds' : List Deed} (h : Kept b i ds) (hstep : Attempted b ds' b') :
    Kept b' (i + 1) (ds ++ ds') := by
  obtain ⟨⟨spoiled, htotal, hspoiled⟩, hrecorded, hcommitted, hfailures⟩ := h
  cases hstep with
  | refused reason c =>
    have hreasons : (b.reasons ++ [reason]).length = b.reasons.length + 1 := List.length_append
    rw [List.append_nil]
    refine ⟨⟨spoiled, ?_, hspoiled⟩, ?_, hcommitted, ?_⟩
    · show b.stats.total + 1 = _
      omega
    · show b.stats.total + 1 = b.latencies.length + (b.reasons ++ [reason]).length
      omega
    · show b.stats.failures + 1 = (b.reasons ++ [reason]).length
      omega
  | recorded dt c depths =>
    have hlatencies : (b.latencies ++ [dt]).length = b.latencies.length + 1 := List.length_append
    refine ⟨⟨spoiled, ?_, by simpa using hspoiled⟩, ?_, ?_, hfailures⟩
    · show b.stats.total + 1 = _
      omega
    · show b.stats.total + 1 = (b.latencies ++ [dt]).length + b.reasons.length
      omega
    · rw [List.count_append, ← hcommitted]
      exact hlatencies
  | spoiled dt reason c ps hnot hfailed =>
    have hlatencies : (b.latencies ++ [dt]).length = b.latencies.length + 1 := List.length_append
    have hreasons : (b.reasons ++ [reason]).length = b.reasons.length + 1 := List.length_append
    -- one more attempt, counted twice
    refine ⟨⟨spoiled + 1, ?_, by simp [hfailed]⟩, ?_, ?_, ?_⟩
    · show b.stats.total + 1 + 1 = _
      omega
    · show b.stats.total + 1 + 1 = (b.latencies ++ [dt]).length + (b.reasons ++ [reason]).length
      omega
    · rw [List.count_append, List.count_cons_self, List.count_eq_zero.mpr hnot, ← hcommitted]
      exact hlatencies
    · show b.stats.failures + 1 = (b.reasons ++ [reason]).length
      omega

/-- The books balance if no probe failed, and only then. -/
theorem Kept.balanced {b : Books} {i : ℕ} {ds : List Deed} (h : Kept b i ds) :
    Balanced i (ds.count .committed) b ↔ .probeFailed ∉ ds := by
  obtain ⟨⟨spoiled, htotal, hspoiled⟩, hrecorded, hcommitted, hfailures⟩ := h
  rw [← hspoiled]
  constructor
  · intro hb
    have := hb.total
    omega
  · intro h0
    refine ⟨by omega, ?_, hcommitted, hfailures, by omega⟩
    rw [RoundTripStats.successes]
    omega

theorem silent_publishMetrics (stats : RoundTripStats) : Silent see (publishMetrics stats) := by
  refine Silent.then (silent_ask fun _ => rfl) fun written => ?_
  split
  · exact silent_ask fun _ => rfl
  · exact silent_pure ()

theorem silent_pace (args : Args) (record : Bool) (b : Books) : Silent see (pace args record b) := by
  have hsleep : Silent see (Prog.ask (Cmd.sleep args.interval) : Client Unit) := silent_ask fun _ => rfl
  by_cases hpublish : record ∧ args.textfile ≠ [] <;> by_cases hpause : args.interval.isTrue <;>
    simp only [pace, hpublish, hpause, if_true, if_false, and_self, ne_eq, not_false_eq_true]
  · exact (silent_publishMetrics b.stats).then fun _ => hsleep
  · exact (silent_publishMetrics b.stats).then fun _ => silent_pure ()
  · exact hsleep
  · exact silent_pure ()

theorem silent_goesOn (duration start : Double) (count : ℤ) (i : ℕ) : Silent see (goesOn duration start count i) := by
  unfold goesOn
  split
  · exact silent_pure true
  · split
    · exact silent_clock.then fun now => silent_pure _
    · exact silent_pure false

/-- **The loop keeps the books**, wherever it ends. -/
theorem shows_turns (args : Args) (duration start : Double) (count : ℤ) : ∀ (n : ℕ) (b : Books) (i : ℕ) (before : List Deed),
    Kept b i before → (turns args duration start count true n b i).Shows see fun ds r =>
      ∀ b' i', r = .ok (b', i') → Kept b' i' (before ++ ds)
  | 0, _, _, _, _ => shows_stop
  | n + 1, b, i, before, h => by
    refine (silent_goesOn duration start count i).then_shows fun on => ?_
    split
    · refine (yields_attempt args b i).returned_shows fun ds b' hstep => ?_
      refine (silent_pace args true b').then_shows fun _ => ?_
      have hrest := shows_turns args duration start count n b' (i + 1) (before ++ ds) (h.attempt hstep)
      simpa only [List.append_assoc] using hrest
    · refine (yields_pure ?_).shows
      intro b' i' heq
      obtain ⟨rfl, rfl⟩ := Prod.mk.inj (Except.ok.inj heq)
      rwa [List.append_nil]

/-! ### The warmup -/

/-- An attempt of the warmup touches the connection only. -/
theorem yields_warm_attempt (args : Args) (c : Bool) (i : ℕ) :
    (attempt args false (.fresh c) i).Yields see fun _ r => ∃ b, r = .ok b ∧ ∃ c', b = .fresh c' := by
  have hbody : (tryCommit args false (.fresh c) i).Yields see fun _ r => ∃ v, r = .ok v ∧ ∃ c', v.1 = .fresh c' := by
    refine (yields_commitOnce args c).returned fun ds v h => ?_
    obtain ⟨c', res⟩ := v
    cases res with
    | error reason => exact yields_pure ⟨_, rfl, c', rfl⟩
    | ok dt => exact yields_pure ⟨_, rfl, c', rfl⟩
  refine hbody.returned fun ds v h => ?_
  obtain ⟨b, raised⟩ := v
  obtain ⟨c', hb⟩ := h
  obtain rfl : b = .fresh c' := hb
  cases raised with
  | none => exact yields_pure ⟨_, rfl, c', rfl⟩
  | some reason =>
    have herror : (onError false (.fresh c') reason).Yields see fun _ r => ∃ b, r = .ok b ∧ ∃ c'', b = .fresh c'' := by
      refine Silent.then (silent_ask fun _ => rfl) fun _ => ?_
      split
      · exact (silent_disconnect _).then fun _ => yields_pure ⟨_, rfl, false, rfl⟩
      · exact yields_pure ⟨_, rfl, c', rfl⟩
    exact herror

theorem shows_warm_turns (args : Args) (duration start : Double) (count : ℤ) : ∀ (n : ℕ) (c : Bool) (i : ℕ),
    (turns args duration start count false n (.fresh c) i).Shows see fun _ r =>
      ∀ b i', r = .ok (b, i') → ∃ c', b = .fresh c'
  | 0, _, _ => shows_stop
  | n + 1, c, i => by
    refine (silent_goesOn duration start count i).then_shows fun on => ?_
    split
    · refine (yields_warm_attempt args c i).returned_shows fun ds b hb => ?_
      obtain ⟨c', rfl⟩ := hb
      exact (silent_pace args false _).then_shows fun _ => shows_warm_turns args duration start count n c' (i + 1)
    · refine (yields_pure ?_).shows
      intro b i' heq
      exact ⟨c, (Prod.mk.inj (Except.ok.inj heq)).1.symm⟩

/-- **The measured phase starts with fresh books**, whatever the warmup went through. -/
theorem measured_phase {args : Args} {warmup measure : Double} {n : ℕ} {o : Oracle Cmd Ans} {hist : History Cmd Ans}
    {r : Except Empty (Books × ℕ)} (h : (measured args warmup measure n).run o [] = (hist, some r)) :
    ∃ before c, (phase args measure args.count true n (.fresh c)).run o before = (hist, some r) := by
  have hwarm : (phase args warmup 0 false n (.fresh false)).Shows see fun _ r => ∀ b i, r = .ok (b, i) → ∃ c, b = .fresh c :=
    silent_clock.then_shows fun start => shows_warm_turns args warmup start 0 n false 0
  obtain ⟨before, r₀, hrun, hP⟩ := hwarm o []
  unfold measured at h
  rw [run_bind, hrun] at h
  cases r₀ with
  | none => cases (Prod.mk.inj h).2
  | some r₀ =>
    cases r₀ with
    | error e => exact nomatch e
    | ok v =>
      obtain ⟨b, i⟩ := v
      obtain ⟨c, rfl⟩ := hP _ rfl b i rfl
      exact ⟨_, c, h⟩

/-! ### Main result -/

/-- **When the books balance.** A measured phase that ends, after any `turns`
and with any answers, has counted every attempt once if and only if no probe of
the queue's depth failed in it. -/
theorem balanced_iff {args : Args} {measure : Double} {count : ℤ} {n turns : ℕ} {connected : Bool} {o : Oracle Cmd Ans}
    {before es : History Cmd Ans} {b : Books}
    (h : (phase args measure count true n (.fresh connected)).run o before = (before ++ es, some (.ok (b, turns)))) :
    Balanced turns ((es.flatMap see).count .committed) b ↔ .probeFailed ∉ es.flatMap see := by
  have hphase : (phase args measure count true n (.fresh connected)).Shows see fun ds r =>
      ∀ b' i', r = .ok (b', i') → Kept b' i' ds :=
    silent_clock.then_shows fun start => shows_turns args measure start count n _ 0 [] (Kept.init connected)
  exact (hphase.of_run h b turns rfl).balanced

/-- A queue manager that does all but say how deep the queue is. -/
def answering (depth : Except Reason Mqlong) : Oracle Cmd Ans := fun _ c =>
  match c with
  | .mqi (.get _ _) => .ok ([] : Bytes)
  | .mqi .inquire => depth
  | .mqi .connect | .mqi (.put _ _) | .mqi (.openQ _) | .mqi .closeQ | .mqi .commit | .mqi .backout | .mqi .disconnect =>
    .ok ()
  | .clock => Double.zero
  | .publish _ => true
  | .print _ => ()
  | .sleep _ => ()

/-- One message, without a pause. -/
def oneMessage : Args := ⟨"APP.REPLY".toList, 1, [], Double.zero, 1⟩

/-- The phase of one message. -/
abbrev shortPhase (depth : Except Reason Mqlong) : History Cmd Ans × Option (Except Empty (Books × ℕ)) :=
  (phase oneMessage Double.zero 1 true 2 (.fresh false)).run (answering depth) []

theorem balanced_one_message : ∃ b, (shortPhase (.ok ⟨0, by decide⟩)).2 = some (.ok (b, 1)) ∧ Balanced 1 1 b :=
  ⟨_, rfl, (@balanced_iff oneMessage Double.zero 1 2 1 false (answering (.ok ⟨0, by decide⟩)) [] _ _ rfl).mpr (by decide)⟩

/-- The connection breaks after the commit: one attempt, one commit, and a
total of two. -/
theorem broken_probe_counts_twice : ∃ b, (shortPhase (.error rcConnectionBroken)).2 = some (.ok (b, 1)) ∧
    b.stats.total = 2 ∧ ¬ Balanced 1 (((shortPhase (.error rcConnectionBroken)).1.flatMap see).count .committed) b := by
  refine ⟨_, rfl, rfl, fun h => ?_⟩
  have htotal : (2 : ℤ) = (1 : ℕ) := h.total
  omega

end Bench
end MqResiliency
