/-
# A unit is applied on the leader of its attempt

Of a run the answers of `dspmq`, the pauses and what was run on a host are
looked at (`see`). An attempt (`Attempt`) is its polls, a pause or none, and
what was run on the instance that the last poll lists as Active.

`followed`: whatever `dspmq` answers and the steps come to, wherever leadership
moves, the run is a series of attempts that follows the leader (`Followed`).

Key definitions: `Attempt`, `Followed`. Key theorem: `followed`.
-/
import MqResiliency.Lib.Retry
import MqResiliency.NativeHa.OnActive

namespace MqResiliency
namespace NativeHa

open Py Prog Tasks

/-- What is looked at in a run. -/
inductive Deed : Type where
  | polled (out : Option Output)
  | paused
  | ran (host : Str) (item : Item) (e : Ended FailedResult)

def see : Exchange Cmd Ans → List Deed
  | ⟨.dspmq _, out⟩ => [.polled out]
  | ⟨.pause _, _⟩ => [.paused]
  | ⟨.step host s, r⟩ => [.ran host (.step s) (s.ended r)]
  | ⟨.service host t, e⟩ => [.ran host (.service t) e]
  | _ => []

/-! ### Attempts -/

/-- The group's instances. -/
def Inputs.group (inp : Inputs) : List Str := inp.members.getD []

structure Attempt : Type where
  polls : List (Option Output)
  paused : Bool
  ran : Done Item FailedResult

namespace Attempt

/-- The members of the group that the last poll lists as Active. -/
def listed (a : Attempt) (inp : Inputs) : List Str := (a.polls.getLast?.join).elim [] fun out => actives inp.group out.stdout

/-- The Active of the attempt, if one was found. -/
def active (a : Attempt) (inp : Inputs) : Option Str := (a.listed inp).head?

def deed (host : Str) (e : Item × Ended FailedResult) : Deed := .ran host e.1 e.2

/-- All that is seen of it. -/
def deeds (a : Attempt) (inp : Inputs) : List Deed :=
  a.polls.map .polled ++ (if a.paused then [.paused] else []) ++ a.ran.map (deed ((a.active inp).getD []))

/-- Every step of the unit succeeded, in order, on the Active. -/
def Applied (a : Attempt) (inp : Inputs) : Prop :=
  (a.active inp).isSome ∧ a.ran.map Prod.fst = inp.items ∧ ∀ e ∈ a.ran, e.2 = .ok

/-- It failed, and no result that failed has an rc. -/
def Fatal (a : Attempt) : Prop := ∃ results, verdict a.ran = .failed results ∧ ∀ f ∈ results, f.rc = none

/-- A poll that lists no Active is followed by another. -/
def PollsOn (inp : Inputs) (p : Option Output) : Prop := ∃ out, p = some out ∧ actives inp.group out.stdout = []

/-- It polls until there is an Active, and runs the steps there and in order. -/
structure Sound (a : Attempt) (inp : Inputs) : Prop where
  searched : inp.group ≠ [] → Attempts (PollsOn inp) (inp.findRetries + 1) a.polls
  onListed : ∀ host item e, .ran host item e ∈ a.deeds inp → a.active inp = some host ∧ host ∈ a.listed inp ∧ host ∈ inp.group
  inOrder : a.ran.map Prod.fst <+: inp.items

end Attempt

/-- Before an attempt there is a pause exactly where its Active is the one of
the attempt that failed before, `prev`. -/
def Pauses (inp : Inputs) : (prev : Option Str) → List Attempt → Prop
  | _, [] => True
  | prev, a :: as => (a.paused = true ↔ ∃ host, a.active inp = some host ∧ prev = some host) ∧ Pauses inp (a.active inp) as

/-- The attempts follow the leader. -/
structure Followed (inp : Inputs) (ds : List Deed) (r : Except Failed Unit) (as : List Attempt) : Prop where
  seen : ds = as.flatMap (·.deeds inp)
  bounded : as.length ≤ inp.attempts
  sound : ∀ a ∈ as, a.Sound inp
  pauses : Pauses inp none as
  earlier : ∀ a ∈ as.dropLast, ¬ a.Applied inp ∧ ¬ a.Fatal
  ended : r = .ok () ↔ ∃ a, as.getLast? = some a ∧ a.Applied inp
  fatal : ∀ a ∈ as, a.Fatal → as.getLast? = some a ∧ ∃ e, r = .error e
  failed : (¬ ∃ a ∈ as, a.Applied inp) → ∃ e, r = .error e

/-! ### What an attempt shows -/

/-- The search for the Active. -/
def Searched (inp : Inputs) (ds : List Deed) (r : Except Failed Str) : Prop :=
  ∃ polls, ds = polls.map .polled ∧ (inp.group ≠ [] → Attempts (Attempt.PollsOn inp) (inp.findRetries + 1) polls) ∧
    ((∃ host, r = .ok host ∧ (Attempt.mk polls false []).active inp = some host) ∨
      ((Attempt.mk polls false []).active inp = none ∧ ∃ e, r = .error e))

theorem yields_dspmq (host : Str) : (dspmq host).Yields see fun ds r =>
    (∃ out, r = .ok out ∧ ds = [.polled (some out)]) ∨ (r = .error (.unreachable host) ∧ ds = [.polled none]) := by
  refine yields_seen fun out => ?_
  cases out with
  | none => exact yields_throw (.inr ⟨rfl, rfl⟩)
  | some out => exact yields_pure (.inl ⟨out, rfl, rfl⟩)

/-- The polls, up to the one that ends them. -/
theorem yields_poll (inp : Inputs) (host : Str) : ∀ n : ℕ, (poll inp inp.group host n).Yields see fun ds r =>
    ∃ polls, ds = polls.map .polled ∧ Attempts (Attempt.PollsOn inp) (n + 1) polls ∧
      ((∃ out, r = .ok out ∧ polls.getLast? = some (some out)) ∨
        (polls.getLast? = some none ∧ r = .error (.unreachable host)))
  | 0 => by
    refine (yields_dspmq host).mono ?_
    rintro ds r (⟨out, rfl, rfl⟩ | ⟨rfl, rfl⟩)
    · exact ⟨[some out], rfl, .last (.inr rfl), .inl ⟨out, rfl, rfl⟩⟩
    · exact ⟨[none], rfl, .last (.inr rfl), .inr ⟨rfl, rfl⟩⟩
  | n + 1 => by
    refine (yields_dspmq host).bind ?_ ?_
    · rintro ds out (⟨out', heq, rfl⟩ | ⟨heq, -⟩)
      · obtain rfl : out = out' := Except.ok.inj heq
        by_cases hnone : actives inp.group out.stdout = []
        · simp only [hnone, ne_eq, not_true_eq_false, if_false]
          refine Silent.then (silent_ask fun _ => rfl) fun _ => (yields_poll inp host n).mono ?_
          rintro ds r ⟨polls, rfl, hpolls, hend⟩
          refine ⟨some out :: polls, rfl, hpolls.next ⟨out, rfl, hnone⟩, ?_⟩
          obtain ⟨p, hp⟩ := hpolls.exists_last
          rwa [List.getLast?_cons, hp, Option.getD_some, ← hp]
        · simp only [hnone, ne_eq, not_false_eq_true, if_true]
          refine yields_pure ⟨[some out], rfl, .last (.inl ?_), .inl ⟨out, rfl, rfl⟩⟩
          rintro ⟨out', heq, hno⟩
          rw [← Option.some.inj heq] at hno
          exact hnone hno
      · cases heq
    · rintro ds e (⟨_, heq, -⟩ | ⟨heq, rfl⟩)
      · cases heq
      · obtain rfl : e = .unreachable host := Except.error.inj heq
        refine ⟨[none], rfl, .last (.inl ?_), .inr ⟨rfl, rfl⟩⟩
        rintro ⟨out, heq, _⟩
        cases heq

theorem yields_findActive (inp : Inputs) : (findActive inp).Yields see (Searched inp) := by
  have hmalformed : inp.group = [] → (throw .malformed : Play Str).Yields see (Searched inp) := fun hnil =>
    yields_throw ⟨[], rfl, fun hne => absurd hnil hne, .inr ⟨rfl, _, rfl⟩⟩
  unfold findActive
  cases hmembers : inp.members with
  | none => exact hmalformed (by rw [Inputs.group, hmembers]; rfl)
  | some members =>
    have hgroup : inp.group = members := by rw [Inputs.group, hmembers]; rfl
    cases members with
    | nil => exact hmalformed hgroup
    | cons first rest =>
      have hpolls := yields_poll inp first inp.findRetries
      rw [hgroup] at hpolls
      refine hpolls.bind ?_ ?_
      · rintro ds out ⟨polls, rfl, hatt, ⟨out', heq, hlast⟩ | ⟨-, heq⟩⟩
        · obtain rfl : out = out' := Except.ok.inj heq
          have hactive : (Attempt.mk polls false []).active inp = (actives (first :: rest) out.stdout).head? := by
            simp [Attempt.active, Attempt.listed, hlast, hgroup]
          cases hlist : actives (first :: rest) out.stdout with
          | nil =>
            rw [hlist] at hactive
            exact yields_throw ⟨polls, by simp, fun _ => hatt, .inr ⟨hactive, _, rfl⟩⟩
          | cons active others =>
            rw [hlist] at hactive
            exact yields_pure ⟨polls, by simp, fun _ => hatt, .inl ⟨active, rfl, hactive⟩⟩
        · cases heq
      · rintro ds e ⟨polls, rfl, hatt, ⟨_, heq, _⟩ | ⟨hlast, heq⟩⟩
        · cases heq
        · refine ⟨polls, rfl, fun _ => hatt, .inr ⟨?_, e, rfl⟩⟩
          simp [Attempt.active, Attempt.listed, hlast]

theorem yields_runItem (host : Str) (item : Item) :
    (runItem host item).Yields see fun ds r => ∃ e, r = .ok e ∧ ds = [Attempt.deed host (item, e)] := by
  cases item with
  | step s => exact yields_seen fun r => yields_pure ⟨s.ended r, rfl, rfl⟩
  | service t => exact yields_ask fun e => ⟨e, rfl, rfl⟩

/-- The unit is run in order, up to a failure. -/
theorem yields_runUnit (inp : Inputs) (host : Str) : (runUnit inp host).Yields see fun ds r =>
    ∃ done, r = .ok done ∧ ds = done.map (Attempt.deed host) ∧ Ran inp.items done := by
  refine (yields_looped (yields_runItem host) inp.stepItems).returned fun ds steps h => ?_
  obtain ⟨rfl, hsteps⟩ := h
  split
  · rename_i hok
    refine (yields_inRow (yields_runItem host) inp.roleItems).returned fun ds' role h => ?_
    obtain ⟨rfl, hrole⟩ := h
    exact yields_pure ⟨steps ++ role, rfl, by simp, hsteps.append hok hrole⟩
  · rename_i hok
    exact yields_pure ⟨steps, rfl, by simp, hsteps.stop hok inp.roleItems⟩

/-- The state after the block. -/
def State.after (s : State) (active : Str) (done : Done Item FailedResult) : State :=
  match verdict done with
  | .ok => s.setOwn active ⟨true, (s.own active).failure⟩
  | .failed results => s.setOwn active ⟨(s.own active).ok, some results⟩
  | .unreachable => s.drop active

theorem yields_apply (inp : Inputs) (s : State) (active : Str) : (apply inp s active).Yields see fun ds r =>
    ∃ s', r = .ok s' ∧ ∃ done, s' = s.after active done ∧ ds = done.map (Attempt.deed active) ∧ Ran inp.items done := by
  refine (yields_runUnit inp active).returned fun ds done h => ?_
  obtain ⟨rfl, hran⟩ := h
  have hpure : (pure (s.after active done) : Play State).Yields see fun ds r => ∃ s', r = .ok s' ∧ ∃ done',
      s' = s.after active done' ∧ done.map (Attempt.deed active) ++ ds = done'.map (Attempt.deed active) ∧
        Ran inp.items done' := yields_pure ⟨_, rfl, done, rfl, by simp, hran⟩
  unfold State.after at hpure
  cases hverdict : verdict done <;> simp only [hverdict] at hpure ⊢ <;> exact hpure

variable {toJson : List FailedResult → Str}

/-- How an attempt ends: a failure that nothing can mend ends the play. -/
def Concluded (toJson : List FailedResult → Str) (s : State) (active : Str) (r : Except Failed State) : Prop :=
  (s.hosts = [] ∧ r = .error .noHosts) ∨
    (s.hosts ≠ [] ∧ (s.record toJson active).prev.failed ∧ (s.record toJson active).prev.retryable = false ∧
      r = .error (.notRetryable (s.record toJson active).prev)) ∨
    (s.hosts ≠ [] ∧ ((s.record toJson active).prev.failed → (s.record toJson active).prev.retryable) ∧
      r = .ok (s.record toJson active))

theorem yields_conclude (s : State) (active : Str) :
    (conclude toJson s active).Yields see fun ds r => ds = [] ∧ Concluded toJson s active r := by
  unfold Concluded
  unfold conclude
  by_cases hhosts : s.hosts = []
  · simp only [hhosts, if_true]
    exact yields_throw ⟨rfl, .inl ⟨trivial, rfl⟩⟩
  · simp only [hhosts, if_false, ne_eq, not_false_eq_true, true_and, false_and, false_or]
    by_cases hfailed : (s.record toJson active).prev.failed
    · by_cases hretry : (s.record toJson active).prev.retryable
      · simp only [hfailed, hretry, if_true, Bool.not_true, Bool.false_eq_true, if_false]
        exact (silent_ask fun _ => rfl).then fun _ => yields_pure ⟨rfl, .inr ⟨fun _ => trivial, rfl⟩⟩
      · simp only [hfailed, hretry, if_true, Bool.not_false]
        exact yields_throw ⟨rfl, .inl ⟨trivial, by simp, rfl⟩⟩
    · simp only [hfailed, if_false, Bool.false_eq_true]
      exact yields_pure ⟨rfl, .inr ⟨fun h => absurd h (by simp), rfl⟩⟩

/-! ### What an attempt comes to -/

/-- The host of the attempt that failed before. -/
def State.prevHost (s : State) : Option Str := if s.prev.failed then some s.prev.host else none

/-- An attempt applies the unit, asks for another attempt, or ends the play. -/
inductive Attempt.Came (a : Attempt) (inp : Inputs) : Except Failed State → Prop
  | applied (s : State) (done : s.done = true) (h : a.Applied inp) : Came a inp (.ok s)
  | again (s : State) (done : s.done = false) (prev : s.prevHost = a.active inp) (h : ¬ a.Applied inp)
    (notFatal : ¬ a.Fatal) : Came a inp (.ok s)
  | stopped (e : Failed) (h : ¬ a.Applied inp) : Came a inp (.error e)

theorem Attempt.not_applied {a : Attempt} {inp : Inputs} (h : verdict a.ran ≠ .ok) : ¬ a.Applied inp := fun happlied =>
  h (verdict_eq_ok.mpr happlied.2.2)

/-- Where the Active is out of the play, another attempt is asked for. -/
theorem record_of_not_mem (toJson : List FailedResult → Str) {s : State} {active : Str} (h : active ∉ s.hosts) :
    (s.record toJson active).done = false ∧ (s.record toJson active).prevHost = some active ∧
      (s.record toJson active).prev.retryable = true := by
  simp [State.record, State.prevHost, h]

/-- In the play, its own facts are what is recorded. -/
theorem record_setOwn (toJson : List FailedResult → Str) {s : State} {active : Str} (h : active ∈ s.hosts) (own : Own) :
    ((s.setOwn active own).record toJson active).done = own.ok ∧
      ((s.setOwn active own).record toJson active).prev.failed = !own.ok ∧
      ((s.setOwn active own).record toJson active).prev.host = active ∧
      ((s.setOwn active own).record toJson active).prev.retryable =
        (own.failure.getD []).any fun f => f.rc.isSome := by
  simp [State.record, State.setOwn, h]

/-- Nothing was run, or the host was lost. -/
theorem came_of_not_mem {a : Attempt} {inp : Inputs} {s : State} {active : Str} {r : Except Failed State}
    (hactive : a.active inp = some active) (h : active ∉ s.hosts) (happlied : ¬ a.Applied inp) (hfatal : ¬ a.Fatal)
    (hr : Concluded toJson s active r) : a.Came inp r := by
  obtain ⟨hdone, hprev, hretry⟩ := record_of_not_mem toJson h
  rcases hr with ⟨-, rfl⟩ | ⟨-, -, hnot, -⟩ | ⟨-, -, rfl⟩
  · exact .stopped _ happlied
  · rw [hretry] at hnot
    cases hnot
  · exact .again _ hdone (hprev.trans hactive.symm) happlied hfatal

/-- The unit was run on the Active, and the outcome recorded. -/
theorem came_of_mem {a : Attempt} {inp : Inputs} {s : State} {active : Str} {r : Except Failed State}
    (hactive : a.active inp = some active) (h : active ∈ s.hosts) (hclear : s.own active = ⟨false, none⟩)
    (hran : Ran inp.items a.ran) (hr : Concluded toJson (s.after active a.ran) active r) : a.Came inp r := by
  have hafter : s.after active a.ran = match verdict a.ran with
      | .ok => s.setOwn active ⟨true, none⟩
      | .failed results => s.setOwn active ⟨false, some results⟩
      | .unreachable => s.drop active := by
    unfold State.after
    rw [hclear]
  rw [hafter] at hr
  cases hverdict : verdict a.ran with
  | ok =>
    have happlied : a.Applied inp := ⟨by simp [hactive], hran.complete hverdict, verdict_eq_ok.mp hverdict⟩
    simp only [hverdict] at hr
    obtain ⟨hdone, hfailed, -, -⟩ := record_setOwn toJson h ⟨true, none⟩
    rcases hr with ⟨hnil, -⟩ | ⟨-, hnot, -, -⟩ | ⟨-, -, rfl⟩
    · have hmem : active ∈ (s.setOwn active ⟨true, none⟩).hosts := h
      exact absurd (hnil ▸ hmem) List.not_mem_nil
    · exact absurd (hfailed.symm.trans hnot) (by decide)
    · exact .applied _ hdone happlied
  | failed results =>
    have happlied : ¬ a.Applied inp := Attempt.not_applied (by simp [hverdict])
    simp only [hverdict] at hr
    obtain ⟨hdone, hfailed, hhost, hretry⟩ := record_setOwn toJson h ⟨false, some results⟩
    rcases hr with ⟨-, rfl⟩ | ⟨-, -, -, rfl⟩ | ⟨-, hnot, rfl⟩
    · exact .stopped _ happlied
    · exact .stopped _ happlied
    · refine .again _ hdone ?_ happlied ?_
      · rw [hactive, State.prevHost]
        exact (if_pos hfailed).trans (congrArg some hhost)
      · rintro ⟨results', heq, hnone⟩
        obtain rfl : results = results' := Ended.failed.inj (hverdict.symm.trans heq)
        -- it is retried, so one of the results has an rc
        obtain ⟨f, hf, hsome⟩ := List.any_eq_true.mp (hretry.symm.trans (hnot hfailed))
        rw [hnone f hf] at hsome
        cases hsome
  | unreachable =>
    simp only [hverdict] at hr
    have hmem : active ∉ (s.drop active).hosts := by simp [State.drop]
    refine came_of_not_mem hactive hmem (Attempt.not_applied (by simp [hverdict])) ?_ hr
    rintro ⟨results, heq, -⟩
    rw [hverdict] at heq
    cases heq

theorem yields_pauseFor (inp : Inputs) (s : State) (active : Str) : (pauseFor inp s active).Yields see fun ds r =>
    ∃ u, r = .ok u ∧ ∃ paused : Bool, ds = (if paused then [.paused] else []) ∧
      (paused = true ↔ s.prevHost = some active) := by
  unfold pauseFor State.prevHost
  by_cases hfailed : s.prev.failed <;> by_cases hhost : s.prev.host = active <;>
    simp only [hfailed, hhost, and_true, and_false, if_true, if_false, Bool.false_eq_true]
  · exact yields_ask fun _ => ⟨(), rfl, true, rfl, by simp⟩
  · exact yields_pure ⟨(), rfl, false, rfl, by simp [hhost]⟩
  · exact yields_pure ⟨(), rfl, false, rfl, by simp⟩
  · exact yields_pure ⟨(), rfl, false, rfl, by simp⟩

/-- What is run in an attempt is run on its Active, which is listed. -/
theorem Attempt.sound_of {polls : List (Option Output)} {paused : Bool} {done : Done Item FailedResult} {inp : Inputs}
    (hpolls : inp.group ≠ [] → Attempts (PollsOn inp) (inp.findRetries + 1) polls)
    (hdone : done ≠ [] → ((Attempt.mk polls paused done).active inp).isSome) (hran : done.map Prod.fst <+: inp.items) :
    (Attempt.mk polls paused done).Sound inp where
  searched := hpolls
  inOrder := hran
  onListed := by
    intro host item e hmem
    have hrun : Deed.ran host item e ∈ done.map (deed (((Attempt.mk polls paused done).active inp).getD [])) := by
      rcases List.mem_append.mp hmem with hmem | hmem
      · rcases List.mem_append.mp hmem with hmem | hmem
        · obtain ⟨_, -, heq⟩ := List.mem_map.mp hmem
          cases heq
        · cases paused <;> simp at hmem
      · exact hmem
    obtain ⟨⟨item', e'⟩, hin, heq⟩ := List.mem_map.mp hrun
    obtain ⟨active, hactive⟩ := Option.isSome_iff_exists.mp (hdone (List.ne_nil_of_mem hin))
    rw [hactive, Option.getD_some] at heq
    obtain rfl : active = host := (Deed.ran.inj heq).1
    have hlisted : active ∈ (Attempt.mk polls paused done).listed inp := List.mem_of_mem_head? hactive
    refine ⟨hactive, hlisted, ?_⟩
    unfold listed at hlisted
    cases hlast : (Attempt.mk polls paused done).polls.getLast?.join with
    | none =>
      rw [hlast] at hlisted
      cases hlisted
    | some out =>
      rw [hlast] at hlisted
      simpa using (List.mem_filter.mp hlisted).2

/-- **One attempt**, from any state. -/
theorem yields_attempt {inp : Inputs} (hitems : inp.items ≠ []) (s : State) :
    (attempt toJson inp s).Yields see fun ds r => ∃ a : Attempt, ds = a.deeds inp ∧ a.Sound inp ∧
      (a.paused = true ↔ ∃ host, a.active inp = some host ∧ s.prevHost = some host) ∧ a.Came inp r := by
  refine (yields_findActive inp).bind ?_ ?_
  · rintro ds active ⟨polls, rfl, hpolls, ⟨host, heq, hactive⟩ | ⟨-, e, heq⟩⟩
    · obtain rfl : active = host := Except.ok.inj heq
      refine (yields_pauseFor inp s active).returned fun _ _ h => ?_
      obtain ⟨paused, rfl, hpaused⟩ := h
      have hfound : ∀ done, (Attempt.mk polls paused done).active inp = some active := fun _ => hactive
      have hpause : ∀ done, (Attempt.mk polls paused done).paused = true ↔
          ∃ host, (Attempt.mk polls paused done).active inp = some host ∧ s.prevHost = some host := by
        intro done
        rw [hfound, hpaused]
        simp
      by_cases hmem : active ∈ s.clear.hosts
      · simp only [hmem, if_true]
        refine (yields_apply inp s.clear active).returned fun _ _ h => ?_
        obtain ⟨done, rfl, rfl, hran⟩ := h
        refine (yields_conclude _ active).mono ?_
        rintro ds r ⟨rfl, hr⟩
        have hclear : s.clear.own active = ⟨false, none⟩ := if_pos hmem
        refine ⟨⟨polls, paused, done⟩, ?_, ?_, hpause done, came_of_mem (hfound done) hmem hclear hran hr⟩
        · simp [Attempt.deeds, hfound]
        · exact Attempt.sound_of hpolls (fun _ => by simp [hfound]) hran.inOrder
      · simp only [hmem, if_false]
        refine (yields_conclude s.clear active).mono ?_
        rintro ds r ⟨rfl, hr⟩
        have happlied : ¬ (Attempt.mk polls paused []).Applied inp := fun h => hitems h.2.1.symm
        have hfatal : ¬ (Attempt.mk polls paused []).Fatal := by
          rintro ⟨results, heq, -⟩
          cases heq
        refine ⟨⟨polls, paused, []⟩, ?_, ?_, hpause [], came_of_not_mem (hfound []) hmem happlied hfatal hr⟩
        · simp [Attempt.deeds]
        · exact Attempt.sound_of hpolls (fun hne => absurd rfl hne) List.nil_prefix
    · cases heq
  · rintro ds e ⟨polls, rfl, hpolls, ⟨host, heq, -⟩ | ⟨hnone, e', heq⟩⟩
    · cases heq
    · refine ⟨⟨polls, false, []⟩, by simp [Attempt.deeds], ?_, ?_, .stopped e ?_⟩
      · exact Attempt.sound_of hpolls (fun hne => absurd rfl hne) List.nil_prefix
      · simp [hnone]
      · intro happlied
        have hsome := happlied.1
        rw [hnone] at hsome
        cases hsome

/-! ### The bounded loop -/

theorem slots_of_done (inp : Inputs) {s : State} (h : s.done = true) : ∀ n, slots toJson inp n s = pure s
  | 0 => rfl
  | n + 1 => by
    rw [slots, if_pos h]
    exact slots_of_done inp h n

/-- What the slots that are left come to, after an attempt on `prev`. -/
structure Course (inp : Inputs) (prev : Option Str) (n : ℕ) (as : List Attempt) (r : Except Failed State) : Prop where
  bounded : as.length ≤ n
  sound : ∀ a ∈ as, a.Sound inp
  pauses : Pauses inp prev as
  earlier : ∀ a ∈ as.dropLast, ¬ a.Applied inp ∧ ¬ a.Fatal
  ended : (∃ s, r = .ok s ∧ s.done = true) ↔ ∃ a, as.getLast? = some a ∧ a.Applied inp

/-- The last attempt of all. -/
theorem Course.single {inp : Inputs} {prev : Option Str} {n : ℕ} {a : Attempt} {r : Except Failed State} (hsound : a.Sound inp)
    (hpause : a.paused = true ↔ ∃ host, a.active inp = some host ∧ prev = some host)
    (hended : (∃ s, r = .ok s ∧ s.done = true) ↔ a.Applied inp) :
    Course inp prev (n + 1) [a] r where
  bounded := by simp
  sound := by simpa using hsound
  pauses := ⟨hpause, trivial⟩
  earlier := by simp
  ended := by simpa using hended

/-- An attempt that asks for another, and what follows. -/
theorem Course.cons {inp : Inputs} {prev : Option Str} {n : ℕ} {a : Attempt} {as : List Attempt} {r : Except Failed State}
    (hsound : a.Sound inp) (hpause : a.paused = true ↔ ∃ host, a.active inp = some host ∧ prev = some host)
    (happlied : ¬ a.Applied inp) (hfatal : ¬ a.Fatal) (h : Course inp (a.active inp) n as r) :
    Course inp prev (n + 1) (a :: as) r where
  bounded := Nat.succ_le_succ h.bounded
  sound := by
    intro b hb
    rcases List.mem_cons.mp hb with rfl | hb
    · exact hsound
    · exact h.sound b hb
  pauses := ⟨hpause, h.pauses⟩
  earlier := by
    intro b hb
    cases as with
    | nil => cases hb
    | cons c as =>
      rw [List.dropLast_cons_of_ne_nil (List.cons_ne_nil c as)] at hb
      rcases List.mem_cons.mp hb with rfl | hb
      · exact ⟨happlied, hfatal⟩
      · exact h.earlier b hb
  ended := by
    rw [h.ended]
    cases as with
    | nil => simpa using happlied
    | cons c as => rw [List.getLast?_cons_cons]

/-- **The slots that are left**, from any state in which nothing is applied. -/
theorem yields_slots {inp : Inputs} (hitems : inp.items ≠ []) : ∀ (n : ℕ) (s : State), s.done = false →
    (slots toJson inp n s).Yields see fun ds r =>
      ∃ as : List Attempt, ds = as.flatMap (·.deeds inp) ∧ Course inp s.prevHost n as r
  | 0, s, hs => by
    refine yields_pure ⟨[], rfl, by simp, by simp, trivial, by simp, ?_⟩
    simp [hs]
  | n + 1, s, hs => by
    rw [slots, if_neg (by simp [hs])]
    refine (yields_attempt hitems s).bind ?_ ?_
    · rintro ds s' ⟨a, rfl, hsound, hpause, hcame⟩
      cases hcame with
      | applied _ hdone happlied =>
        show (slots toJson inp n s').Yields see _
        rw [slots_of_done inp hdone]
        exact yields_pure ⟨[a], by simp, .single hsound hpause (iff_of_true ⟨s', rfl, hdone⟩ happlied)⟩
      | again _ hdone hprev happlied hfatal =>
        refine (yields_slots hitems n s' hdone).mono ?_
        rintro ds r ⟨as, rfl, hcourse⟩
        rw [hprev] at hcourse
        exact ⟨a :: as, rfl, hcourse.cons hsound hpause happlied hfatal⟩
    · rintro ds e ⟨a, rfl, hsound, hpause, hcame⟩
      cases hcame with
      | stopped _ happlied =>
        refine ⟨[a], by simp, .single hsound hpause ?_⟩
        simpa using happlied

/-! ### Main result -/

theorem items_ne_nil {inp : Inputs} (h : inp.WellFormed) : inp.items ≠ [] := by
  obtain ⟨-, -, hone, hsteps⟩ := h
  unfold Inputs.items Inputs.stepItems Inputs.roleItems
  cases hs : inp.steps with
  | none =>
    have hmonitor : inp.eventMonitor = true := by simpa [hs] using hone
    simp [hmonitor, serviceTasks]
  | some steps =>
    have hne : steps ≠ [] := by simpa [hs] using hsteps
    simp [hne]

/-- What a run as a whole is, given its slots. -/
theorem Course.whole {inp : Inputs} {as : List Attempt} {r : Except Failed State} {r' : Except Failed Unit}
    (h : Course inp none inp.attempts as r) (hok : r' = .ok () ↔ ∃ s, r = .ok s ∧ s.done = true) :
    Followed inp (as.flatMap (·.deeds inp)) r' as := by
  have herror : r' ≠ .ok () → ∃ e, r' = .error e := by
    intro hne
    cases r' with
    | ok u => exact absurd rfl hne
    | error e => exact ⟨e, rfl⟩
  have hlast : ∀ a ∈ as, a ∉ as.dropLast → as.getLast? = some a := by
    intro a ha hnot
    have hne : as ≠ [] := List.ne_nil_of_mem ha
    rw [← List.dropLast_append_getLast hne] at ha
    rcases List.mem_append.mp ha with ha | ha
    · exact absurd ha hnot
    · rw [List.getLast?_eq_some_getLast hne, List.mem_singleton.mp ha]
  have hexcl : ∀ a : Attempt, a.Fatal → ¬ a.Applied inp := by
    rintro a ⟨results, hverdict, -⟩
    exact Attempt.not_applied (by simp [hverdict])
  refine ⟨rfl, h.bounded, h.sound, h.pauses, h.earlier, hok.trans h.ended, fun a ha hfatal => ?_, fun hnone => ?_⟩
  · have hgetLast := hlast a ha fun hmem => (h.earlier a hmem).2 hfatal
    refine ⟨hgetLast, herror fun heq => ?_⟩
    obtain ⟨b, hb, happlied⟩ := h.ended.mp (hok.mp heq)
    obtain rfl : a = b := Option.some.inj (hgetLast.symm.trans hb)
    exact hexcl a hfatal happlied
  · refine herror fun heq => ?_
    obtain ⟨b, hb, happlied⟩ := h.ended.mp (hok.mp heq)
    exact hnone ⟨b, List.mem_of_getLast? hb, happlied⟩

/-- **The leader is followed.** Whatever `dspmq` answers and the steps come to,
and whatever hosts are in the play, the run ends, and is a series of attempts
that follows the leader. -/
theorem followed (toJson : List FailedResult → Str) (inp : Inputs) (hosts : List Str) (o : Oracle Cmd Ans) :
    ∃ r as, ((onActive toJson inp hosts).run o []).2 = some r ∧
      Followed inp (((onActive toJson inp hosts).run o []).1.flatMap see) r as := by
  have hall : (onActive toJson inp hosts).Yields see fun ds r => ∃ as, Followed inp ds r as := by
    unfold onActive
    by_cases hwf : inp.WellFormed
    · simp only [hwf, not_true_eq_false, if_false]
      refine (yields_slots (items_ne_nil hwf) inp.attempts (.reset hosts) rfl).bind ?_ ?_
      · rintro ds s ⟨as, rfl, hcourse⟩
        cases hdone : s.done
        · simp only [Bool.not_false, if_true]
          refine yields_throw ⟨as, ?_⟩
          rw [List.append_nil]
          refine hcourse.whole (iff_of_false (by simp) ?_)
          rintro ⟨s', heq, hs'⟩
          obtain rfl := Except.ok.inj heq
          rw [hdone] at hs'
          cases hs'
        · simp only [Bool.not_true, Bool.false_eq_true, if_false]
          refine yields_pure ⟨as, ?_⟩
          rw [List.append_nil]
          exact hcourse.whole (iff_of_true rfl ⟨s, rfl, hdone⟩)
      · rintro ds e ⟨as, rfl, hcourse⟩
        exact ⟨as, hcourse.whole (by simp)⟩
    · simp only [hwf, not_false_eq_true, if_true]
      refine yields_throw ⟨[], rfl, by simp, by simp, trivial, by simp, by simp, by simp, fun _ => ⟨_, rfl⟩⟩
  obtain ⟨r, hr, as, has⟩ := hall.run o
  exact ⟨r, as, hr, has⟩

end NativeHa
end MqResiliency
