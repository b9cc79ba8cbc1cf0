/-
# What the retries of the create do

An MQSC block is attempted five times at most, each time on the node that was
found to run the queue manager for that attempt, and the status is that of the
last attempt (`yields_runMqscRetry`).

The create is attempted three times at most, again only after a flake of the DR
device, and its status is 0 whatever the attempts came to
(`yields_runCrtmqmRetry`): `rc` is read where the failed `if` has left 0. So
the script stops at a failed create (`HonestCreate`, `StopsAtFailed`) just
where no create fails (`create_honest_iff`).

Key definitions: `HonestMqsc`, `HonestCreate`, `StopsAtFailed`, `ClearsAt`.
Key theorems: `create_honest_iff`, `failed_create_passes`.
-/
import MqResiliency.Lab.QmCreate
import MqResiliency.Lib.Retry
import MqResiliency.Lib.Seen

namespace MqResiliency
namespace QmCreate

open Py Shell Prog

/-! ### The remote commands of a run -/

/-- A remote command and what it came to. -/
structure Call : Type where
  node : Str
  text : Str
  ran : Ran

def see : Exchange Cmd Ans → List Call
  | ⟨.remote node text, ran⟩ => [⟨node, text, ran⟩]
  | _ => []

/-- All remote commands of a run. -/
def calls (h : History Cmd Ans) : List Call := h.flatMap see

theorem silent_sleep (seconds : ℕ) : Silent see (sleep seconds) :=
  (silent_ask (c := Cmd.sleep seconds) fun _ => rfl).then fun _ => silent_pure 0

theorem silent_echo (words : List Str) : Silent see (echo words) :=
  (silent_ask (c := Cmd.echo words.flatten) fun _ => rfl).then fun _ => silent_pure 0

theorem silent_andThen (p : Prop) [Decidable p] {body : Sh ℕ} (h : Silent see body) :
    Silent see (andThen (test p) body) := by
  rw [test, andThen_pure]
  by_cases hp : p
  · rw [if_pos hp, if_pos rfl]
    exact h
  · rw [if_neg hp, if_neg Nat.one_ne_zero]
    exact silent_pure 1

/-! ### Loops and functions -/

/-- One turn of a loop, and the others. -/
theorem yields_loop_succ {σ : Type} {body : ℕ → Sh σ} {left i : ℕ} {s : σ} {P Q : List Call → Except Jump σ → Prop}
    (hturn : (body i).Yields see P)
    (hok : ∀ cs s', P cs (.ok s') → (loop body left (i + 1) s').Yields see fun cs' r => Q (cs ++ cs') r)
    (hnext : ∀ cs, P cs (.error .next) → (loop body left (i + 1) s).Yields see fun cs' r => Q (cs ++ cs') r)
    (hjump : ∀ cs j, j ≠ .next → P cs (.error j) → Q cs (.error j)) :
    (loop body (left + 1) i s).Yields see Q := by
  unfold loop
  -- after the `continue` is caught
  refine Yields.bind (P := fun cs r => P cs r ∧ r ≠ .error .next ∨ P cs (.error .next) ∧ r = .ok s) ?_ ?_ ?_
  · refine hturn.tryCatch (fun cs s' h => .inl ⟨h, fun heq => by cases heq⟩) fun cs j h => ?_
    cases j with
    | next => exact yields_pure (.inr ⟨by rwa [List.append_nil], rfl⟩)
    | ret status => exact yields_throw (.inl ⟨by rwa [List.append_nil], fun heq => by cases heq⟩)
    | exit status => exact yields_throw (.inl ⟨by rwa [List.append_nil], fun heq => by cases heq⟩)
  · intro cs s' h
    obtain ⟨h, -⟩ | ⟨h, hs⟩ := h
    · exact hok cs s' h
    · obtain rfl : s' = s := Except.ok.inj hs
      exact hnext cs h
  · intro cs j h
    obtain ⟨h, hne⟩ | ⟨-, hs⟩ := h
    · exact hjump cs j (fun hj => hne (congrArg Except.error hj)) h
    · cases hs

/-- A `return` is the status of the function. -/
theorem yields_function {body : Sh ℕ} {P Q : List Call → Except Jump ℕ → Prop} (hbody : body.Yields see P)
    (hok : ∀ cs status, P cs (.ok status) → Q cs (.ok status))
    (hret : ∀ cs status, P cs (.error (.ret status)) → Q cs (.ok status))
    (hjump : ∀ cs j, (∀ status, j ≠ .ret status) → P cs (.error j) → Q cs (.error j)) :
    (function body).Yields see Q := by
  refine hbody.tryCatch hok fun cs j h => ?_
  cases j with
  | ret status => exact yields_pure (hret _ status (by rwa [List.append_nil]))
  | exit status => exact yields_throw (hjump _ _ (fun _ heq => by cases heq) (by rwa [List.append_nil]))
  | next => exact yields_throw (hjump _ _ (fun _ heq => by cases heq) (by rwa [List.append_nil]))

/-! ### The create -/

/-- The attempt failed with a flake of the DR device. -/
def Flake (ran : Ran) : Prop := ran.rc ≠ 0 ∧ isTransientDrIo (captured ran.stdout)

instance (ran : Ran) : Decidable (Flake ran) := inferInstanceAs (Decidable (_ ∧ _))

/-- An attempt at a create. -/
def crtmqm (node cmd : Str) (ran : Ran) : Call := ⟨node, "su - mqm -c \"".toList ++ cmd ++ ['"'], ran⟩

theorem yields_crtmqmTurn (label node cmd : Str) (attempts delay i : ℕ) :
    (crtmqmTurn label node cmd attempts delay i).Yields see fun cs r => ∃ ran, cs = [crtmqm node cmd ran] ∧
      r = .error (if Flake ran ∧ i < attempts then .next else .ret 0) := by
  unfold crtmqmTurn
  refine yields_seen fun ran => ?_
  dsimp only
  have hleaves : ∀ {p : Sh Unit} {e : Jump}, Leaves see p e →
      e = (if Flake ran ∧ i < attempts then .next else .ret 0) → p.Yields see fun cs r =>
        ∃ ran', see ⟨.remote node ("su - mqm -c \"".toList ++ cmd ++ ['"']), ran⟩ ++ cs = [crtmqm node cmd ran'] ∧
          r = .error (if Flake ran' ∧ i < attempts then .next else .ret 0) := fun hp he =>
    hp.mono fun cs r ⟨hcs, hr⟩ => ⟨ran, by rw [hcs]; rfl, hr.trans (congrArg _ he)⟩
  rw [ifThen_pure, andThen_test, ifThen_test]
  by_cases hok : ran.rc = 0
  · rw [if_pos hok]
    refine hleaves (Leaves.then ?_) (if_neg fun h => h.1.1 hok).symm
    exact (silent_echo _).then fun _ => (silent_andThen _ (silent_echo _)).then fun _ => leaves_throw _
  · -- the `if` left 0, and so does every way out
    rw [if_neg hok, pure_then]
    refine hleaves ((silent_echo _).then fun _ => ?_) rfl
    by_cases hagain : i < attempts ∧ isTransientDrIo (captured ran.stdout) = true
    · rw [if_pos hagain, if_pos ⟨⟨hok, hagain.2⟩, hagain.1⟩]
      exact Leaves.then ((silent_echo _).then fun _ => (silent_sleep delay).then fun _ => leaves_throw _)
    · rw [if_neg hagain, if_neg fun h => hagain ⟨h.2, h.1.2⟩]
      exact (silent_pure 0).then fun _ => (silent_echo _).then fun _ => leaves_throw _

theorem yields_crtmqmLoop (label node cmd : Str) (attempts delay : ℕ) : ∀ left i, 0 < left → i + left = attempts + 1 →
    (loop (crtmqmTurn label node cmd attempts delay) left i ()).Yields see fun cs r => r = .error (.ret 0) ∧
      ∃ as, Attempts Flake left as ∧ cs = as.map (crtmqm node cmd)
  | 0, _, h, _ => absurd h (Nat.lt_irrefl 0)
  | left + 1, i, _, hi => by
    refine yields_loop_succ (yields_crtmqmTurn label node cmd attempts delay i) ?_ ?_ ?_
    · intro cs _ h
      obtain ⟨_, -, hr⟩ := h
      cases hr
    · intro cs h
      obtain ⟨ran, hcs, hr⟩ := h
      by_cases hagain : Flake ran ∧ i < attempts
      · refine (yields_crtmqmLoop label node cmd attempts delay left (i + 1) (by omega) (by omega)).mono ?_
        intro cs' r h
        obtain ⟨hr, as, hatt, hcs'⟩ := h
        refine ⟨hr, ran :: as, hatt.next hagain.1, ?_⟩
        rw [hcs, hcs']
        rfl
      · rw [if_neg hagain] at hr
        cases hr
    · intro cs j hne h
      obtain ⟨ran, hcs, hr⟩ := h
      by_cases hagain : Flake ran ∧ i < attempts
      · rw [if_pos hagain] at hr
        exact absurd (Except.error.inj hr) hne
      · rw [if_neg hagain] at hr
        refine ⟨hr, [ran], Attempts.last ?_, hcs⟩
        by_cases hf : Flake ran
        · have hspent : ¬ i < attempts := fun h => hagain ⟨hf, h⟩
          exact .inr (by omega)
        · exact .inl hf

/-- The attempts at a create, whose status is 0 whatever they came to. -/
theorem yields_runCrtmqmRetry (label node cmd : Str) : (runCrtmqmRetry label node cmd).Yields see fun cs r =>
    r = .ok 0 ∧ ∃ as, Attempts Flake 3 as ∧ cs = as.map (crtmqm node cmd) := by
  refine yields_function (P := fun cs r => r = .error (.ret 0) ∧
    ∃ as, Attempts Flake 3 as ∧ cs = as.map (crtmqm node cmd)) ?_ ?_ ?_ ?_
  · refine (yields_crtmqmLoop label node cmd 3 20 3 1 (by decide) rfl).bind (fun _ _ h => ?_) fun _ _ h => ?_
    · cases h.1
    · exact ⟨congrArg Except.error (Except.error.inj h.1), h.2⟩
  · intro cs status h
    cases h.1
  · intro cs status h
    obtain ⟨hstatus, has⟩ := h
    cases hstatus
    exact ⟨rfl, has⟩
  · intro cs j hne h
    exact absurd (Except.error.inj h.1) (hne 0)

/-! ### An MQSC block -/

/-- The poll found the queue manager running on its node. -/
def Finds (c : Call) : Prop := contains (captured c.ran.stdout) "STATUS(Running)".toList

instance (c : Call) : Decidable (Finds c) := inferInstanceAs (Decidable (_ = true))

/-- The question of `active_a_node`. -/
def dspmq (qm : Str) : Str := "/opt/mqm/bin/dspmq -m ".toList ++ qm ++ " -o status".toList

/-- These are polls, and none found the queue manager. -/
def Missed (qm : Str) (cs : List Call) : Prop := ∀ c ∈ cs, c.text = dspmq qm ∧ ¬ Finds c

/-- An attempt at an MQSC block: the polls, which end with the first that finds
the queue manager running, on the node that the block then runs on. -/
structure MqscAttempt (qm : Str) : Type where
  missed : List Call
  node : Str
  found : Ran
  ran : Ran
  polls : Missed qm missed
  finds : Finds ⟨node, dspmq qm, found⟩

/-- The remote commands of the attempt. -/
def MqscAttempt.calls {qm : Str} (cmd : Str) (a : MqscAttempt qm) : List Call :=
  a.missed ++ [⟨a.node, dspmq qm, a.found⟩, ⟨a.node, cmd, a.ran⟩]

/-- The attempts at an MQSC block are those of a bounded retry and the status
is that of the last; or no node is found for one, and the script exits. -/
def HonestMqsc (qm cmd : Str) (cs : List Call) (r : Except Jump ℕ) : Prop :=
  (∃ (as : List (MqscAttempt qm)) (last : MqscAttempt qm), Attempts (·.ran.rc ≠ 0) 5 as ∧ as.getLast? = some last ∧
      cs = as.flatMap (·.calls cmd) ∧ r = .ok (if last.ran.rc = 0 then 0 else 1)) ∨
    ∃ (as : List (MqscAttempt qm)) (missed : List Call), as.length < 5 ∧ (∀ a ∈ as, a.ran.rc ≠ 0) ∧
      Missed qm missed ∧ cs = as.flatMap (·.calls cmd) ++ missed ∧ r = .error (.exit 1)

/-- Polls up to the first that finds the queue manager, if one does. -/
def Polled (qm : Str) (cs : List Call) (node : Option Str) : Prop :=
  match node with
  | some n => ∃ missed found, Missed qm missed ∧ Finds ⟨n, dspmq qm, found⟩ ∧ cs = missed ++ [⟨n, dspmq qm, found⟩]
  | none => Missed qm cs

section
variable {qm : Str}

theorem missed_nil : Missed qm [] := fun _ h => absurd h List.not_mem_nil

theorem Missed.append {cs cs' : List Call} (h : Missed qm cs) (h' : Missed qm cs') : Missed qm (cs ++ cs') := fun c hc =>
  (List.mem_append.mp hc).elim (h c) (h' c)

/-- Polls that find nothing before others. -/
theorem Missed.polled {cs cs' : List Call} (h : Missed qm cs) : ∀ {node : Option Str}, Polled qm cs' node →
    Polled qm (cs ++ cs') node
  | some n, ⟨missed, found, hmissed, hfinds, hcs⟩ =>
    ⟨cs ++ missed, found, h.append hmissed, hfinds, by rw [hcs, List.append_assoc]⟩
  | none, h' => h.append h'

theorem yields_activeRound : ∀ ns : List Str, (activeRound qm ns).Yields see fun cs r =>
    ∃ node, r = .ok node ∧ Polled qm cs node
  | [] => yields_pure ⟨none, rfl, missed_nil⟩
  | n :: ns => by
    refine yields_seen fun ran => ?_
    by_cases hfinds : contains (captured ran.stdout) "STATUS(Running)".toList = true
    · rw [if_pos hfinds]
      exact yields_pure ⟨some n, rfl, [], ran, missed_nil, hfinds, rfl⟩
    · rw [if_neg hfinds]
      have hmissed : Missed qm [⟨n, dspmq qm, ran⟩] := fun c hc => by
        rw [List.mem_singleton.mp hc]
        exact ⟨rfl, hfinds⟩
      exact (yields_activeRound ns).mono fun cs r ⟨node, hr, hcs⟩ => ⟨node, hr, hmissed.polled hcs⟩

theorem yields_activeRounds : ∀ rounds : ℕ, (activeRounds qm rounds).Yields see fun cs r =>
    ∃ node, r = .ok node ∧ Polled qm cs node
  | 0 => yields_pure ⟨none, rfl, missed_nil⟩
  | rounds + 1 => by
    refine (yields_activeRound _).returned fun cs node hpolled => ?_
    cases node with
    | some n => exact yields_pure ⟨some n, rfl, by rwa [List.append_nil]⟩
    | none =>
      exact (silent_sleep 5).then fun _ => (yields_activeRounds rounds).mono fun cs' r ⟨node, hr, hcs⟩ =>
        ⟨node, hr, Missed.polled hpolled hcs⟩

theorem yields_activeANode : (activeANode qm).Yields see fun cs r =>
    (∃ n, r = .ok n ∧ Polled qm cs (some n)) ∨ r = .error (.exit 1) ∧ Missed qm cs := by
  refine (yields_activeRounds 30).returned fun cs node hpolled => ?_
  cases node with
  | some n => exact yields_pure (.inl ⟨n, rfl, by rwa [List.append_nil]⟩)
  | none => exact (silent_echo _).then fun _ => yields_throw (.inr ⟨rfl, by rwa [List.append_nil]⟩)

/-- A turn of the loop: an attempt, that returns where it succeeds; or no node. -/
def MqscTurned (qm cmd : Str) (cs : List Call) (r : Except Jump Str) : Prop :=
  (∃ a : MqscAttempt qm, cs = a.calls cmd ∧ r = if a.ran.rc = 0 then .error (.ret 0) else .ok a.node) ∨
    Missed qm cs ∧ r = .error (.exit 1)

theorem yields_mqscTurn (label cmd : Str) (attempts delay i : ℕ) :
    (mqscTurn qm label cmd attempts delay i).Yields see (MqscTurned qm cmd) := by
  refine yields_activeANode.bind (fun cs node h => ?_) fun cs j h => ?_
  · obtain ⟨n, hn, missed, found, hmissed, hfinds, rfl⟩ | ⟨hr, -⟩ := h
    · obtain rfl : node = n := Except.ok.inj hn
      refine yields_seen fun ran => ?_
      have hturned : ∀ {r : Except Jump Str}, r = (if ran.rc = 0 then .error (.ret 0) else .ok node) →
          MqscTurned qm cmd (missed ++ [⟨node, dspmq qm, found⟩] ++ ([⟨node, cmd, ran⟩] ++ [])) r := fun hr =>
        .inl ⟨⟨missed, node, found, ran, hmissed, hfinds⟩, by simp [MqscAttempt.calls], hr⟩
      rw [ifThen_pure, ifThen_test]
      by_cases hok : ran.rc = 0
      · rw [if_pos hok]
        have hleaves : ∀ {p : Sh Str}, Leaves see p (.ret 0) → p.Yields see fun cs r =>
            MqscTurned qm cmd (missed ++ [⟨node, dspmq qm, found⟩] ++ ([⟨node, cmd, ran⟩] ++ cs)) r := fun hp =>
          hp.mono fun cs r ⟨hcs, hr⟩ => by
            rw [hcs]
            exact hturned (by rw [hr, if_pos hok])
        refine hleaves (Leaves.then ?_)
        exact (silent_andThen _ (silent_echo _)).then fun _ => leaves_throw _
      · rw [if_neg hok, pure_then]
        have hret : ∀ p : Sh ℕ, Silent see p → (p >>= fun _ => pure node).Yields see fun cs r =>
            MqscTurned qm cmd (missed ++ [⟨node, dspmq qm, found⟩] ++ ([⟨node, cmd, ran⟩] ++ cs)) r := fun p hp =>
          hp.then fun _ => yields_pure (hturned (by rw [if_neg hok]))
        by_cases hmore : i < attempts
        · rw [if_pos hmore]
          exact hret _ ((silent_echo _).then fun _ => silent_sleep delay)
        · rw [if_neg hmore]
          exact hret _ (silent_pure 0)
    · cases hr
  · obtain ⟨n, hr, -⟩ | ⟨hr, hmissed⟩ := h
    · cases hr
    · obtain rfl := Except.error.inj hr
      exact .inr ⟨hmissed, rfl⟩

/-- What the turns of the loop come to, where so many are left. -/
def MqscLooped (qm cmd : Str) (left : ℕ) (cs : List Call) (r : Except Jump Str) : Prop :=
  (∃ (as : List (MqscAttempt qm)) (last : MqscAttempt qm), Attempts (·.ran.rc ≠ 0) left as ∧ as.getLast? = some last ∧
      cs = as.flatMap (·.calls cmd) ∧ r = if last.ran.rc = 0 then .error (.ret 0) else .ok last.node) ∨
    ∃ (as : List (MqscAttempt qm)) (missed : List Call), as.length < left ∧ (∀ a ∈ as, a.ran.rc ≠ 0) ∧
      Missed qm missed ∧ cs = as.flatMap (·.calls cmd) ++ missed ∧ r = .error (.exit 1)

/-- An attempt that failed, and the rest. -/
theorem MqscLooped.next {cmd : Str} {left : ℕ} {cs : List Call} {r : Except Jump Str} {a : MqscAttempt qm}
    (ha : a.ran.rc ≠ 0) (h : MqscLooped qm cmd left cs r) : MqscLooped qm cmd (left + 1) (a.calls cmd ++ cs) r := by
  obtain ⟨as, last, hatt, hlast, rfl, hr⟩ | ⟨as, missed, hlen, hfail, hmissed, rfl, hr⟩ := h
  · refine .inl ⟨a :: as, last, hatt.next ha, ?_, rfl, hr⟩
    rw [List.getLast?_cons, hlast, Option.getD_some]
  · refine .inr ⟨a :: as, missed, Nat.succ_lt_succ hlen, List.forall_mem_cons.mpr ⟨ha, hfail⟩, hmissed, ?_, hr⟩
    rw [List.flatMap_cons, List.append_assoc]

theorem yields_mqscLoop (label cmd : Str) (attempts delay : ℕ) : ∀ left i (node : Str), 0 < left →
    (loop (mqscTurn qm label cmd attempts delay) left i node).Yields see (MqscLooped qm cmd left)
  | 0, _, _, h => absurd h (Nat.lt_irrefl 0)
  | left + 1, i, node, _ => by
    refine yields_loop_succ (yields_mqscTurn label cmd attempts delay i) ?_ ?_ ?_
    · intro cs node' h
      obtain ⟨a, rfl, hr⟩ | ⟨-, hr⟩ := h
      · by_cases hok : a.ran.rc = 0
        · rw [if_pos hok] at hr
          cases hr
        · rw [if_neg hok] at hr
          obtain rfl := Except.ok.inj hr
          cases left with
          | zero =>
            refine yields_pure (.inl ⟨[a], a, Attempts.last (.inr rfl), rfl, ?_, (if_neg hok).symm⟩)
            rw [List.flatMap_singleton, List.append_nil]
          | succ left =>
            exact (yields_mqscLoop label cmd attempts delay (left + 1) (i + 1) _ (Nat.succ_pos left)).mono
              fun cs r h => h.next hok
      · cases hr
    · intro cs h
      obtain ⟨a, -, hr⟩ | ⟨-, hr⟩ := h
      · by_cases hok : a.ran.rc = 0
        · rw [if_pos hok] at hr
          cases hr
        · rw [if_neg hok] at hr
          cases hr
      · cases hr
    · intro cs j _ h
      obtain ⟨a, rfl, hr⟩ | ⟨hmissed, hr⟩ := h
      · by_cases hok : a.ran.rc = 0
        · rw [if_pos hok] at hr
          obtain rfl := Except.error.inj hr
          exact .inl ⟨[a], a, Attempts.last (.inl fun h => h hok), rfl, (List.flatMap_singleton _ a).symm, (if_pos hok).symm⟩
        · rw [if_neg hok] at hr
          cases hr
      · obtain rfl := Except.error.inj hr
        exact .inr ⟨[], cs, Nat.succ_pos left, by simp, hmissed, rfl, rfl⟩

/-- **The attempts at an MQSC block** are honest. -/
theorem yields_runMqscRetry (label cmd : Str) : (runMqscRetry qm label cmd).Yields see (HonestMqsc qm cmd) := by
  refine yields_function (P := fun cs r => (∃ status, r = .error (.ret status) ∧ HonestMqsc qm cmd cs (.ok status)) ∨
    r = .error (.exit 1) ∧ HonestMqsc qm cmd cs r) ?_ ?_ ?_ ?_
  · refine (yields_mqscLoop label cmd 5 5 5 1 [] (by decide)).bind (fun cs node h => ?_) fun cs j h => ?_
    · refine (silent_echo _).then fun _ => yields_throw (.inl ⟨1, rfl, ?_⟩)
      rw [List.append_nil]
      obtain ⟨as, last, hatt, hlast, hcs, hr⟩ | ⟨as, missed, -, -, -, -, hr⟩ := h
      · by_cases hok : last.ran.rc = 0
        · rw [if_pos hok] at hr
          cases hr
        · exact .inl ⟨as, last, hatt, hlast, hcs, congrArg Except.ok (if_neg hok).symm⟩
      · cases hr
    · obtain ⟨as, last, hatt, hlast, hcs, hr⟩ | ⟨as, missed, hlen, hfail, hmissed, hcs, hr⟩ := h
      · by_cases hok : last.ran.rc = 0
        · rw [if_pos hok] at hr
          obtain rfl := Except.error.inj hr
          exact .inl ⟨0, rfl, .inl ⟨as, last, hatt, hlast, hcs, congrArg Except.ok (if_pos hok).symm⟩⟩
        · rw [if_neg hok] at hr
          cases hr
      · obtain rfl := Except.error.inj hr
        exact .inr ⟨rfl, .inr ⟨as, missed, hlen, hfail, hmissed, hcs, rfl⟩⟩
  · intro cs status h
    obtain ⟨_, hr, -⟩ | ⟨hr, -⟩ := h <;> cases hr
  · intro cs status h
    obtain ⟨status', hr, hhonest⟩ | ⟨hr, -⟩ := h
    · cases hr
      exact hhonest
    · cases hr
  · intro cs j hne h
    obtain ⟨status, hr, -⟩ | ⟨-, hhonest⟩ := h
    · exact absurd (Except.error.inj hr) (hne status)
    · exact hhonest

end

/-! ### Outcomes in order -/

/-- The remote commands come to these, one after the other. -/
def fed (s : ℕ → Ran) : Oracle Cmd Ans := fun h c =>
  match c with
  | .remote _ _ => s (calls h).length
  | .sleep _ => ()
  | .echo _ => ()

/-- The commands came to the outcomes from the first on. -/
def Feeds (s : ℕ → Ran) (cs : List Call) : Prop := cs.map Call.ran = (List.range cs.length).map s

section
variable {s : ℕ → Ran}

theorem feeds_concat {h : History Cmd Ans} (hs : Feeds s (calls h)) (c : Cmd) :
    Feeds s (calls (h ++ [⟨c, fed s h c⟩])) := by
  have hcalls : calls (h ++ [⟨c, fed s h c⟩]) = calls h ++ see ⟨c, fed s h c⟩ := by
    unfold calls
    rw [List.flatMap_append, List.flatMap_singleton]
  rw [hcalls]
  cases c with
  | remote node text =>
    show Feeds s (calls h ++ [⟨node, text, s (calls h).length⟩])
    unfold Feeds at hs ⊢
    rw [List.map_append, hs, List.length_append, List.length_singleton, List.range_succ, List.map_append]
    rfl
  | sleep _ | echo _ => simpa [see] using hs

theorem feeds_run {α : Type} {p : Sh α} : ∀ h : History Cmd Ans, Feeds s (calls h) →
    Feeds s (calls (p.run (fed s) h).1) := by
  induction p with
  | ret a => exact fun _ h => h
  | raise e => exact fun _ h => h
  | stop => exact fun _ h => h
  | call c k ih => exact fun h hs => ih (fed s h c) _ (feeds_concat hs c)

/-- The outcome of this number is a success, and those before are flakes that
are tried again. -/
def ClearsAt (s : ℕ → Ran) (k : ℕ) : Prop := k < 3 ∧ (∀ i < k, Flake (s i)) ∧ (s k).rc = 0

/-- Of the attempts that were made, the last succeeded. -/
theorem clearsAt_iff {as : List Ran} {last : Ran} (h : Attempts Flake 3 as) (hlast : as.getLast? = some last)
    (has : as = (List.range as.length).map s) {k : ℕ} : ClearsAt s k ↔ last.rc = 0 ∧ k = as.length - 1 := by
  have hpos : 0 < as.length := List.length_pos_iff.mpr h.made
  have hget : ∀ i < as.length, as[i]? = some (s i) := fun i hi => by
    rw [has]
    simp [hi]
  have hend : last = s (as.length - 1) := by
    rw [List.getLast?_eq_getElem?, hget (as.length - 1) (by omega)] at hlast
    exact (Option.some.inj hlast).symm
  have hflake : ∀ i < as.length - 1, Flake (s i) := fun i hi => by
    apply h.asked
    rw [List.dropLast_eq_take]
    exact List.mem_take_iff_getElem.mpr ⟨i, by omega, by
      have := hget i (by omega)
      rwa [List.getElem?_eq_getElem (by omega), Option.some_inj] at this⟩
  constructor
  · intro ⟨hk, hbefore, hok⟩
    have hle : k = as.length - 1 := by
      by_contra hne
      rcases Nat.lt_or_gt_of_ne hne with hlt | hgt
      · exact (hflake k hlt).1 hok
      · exact h.ended (by omega) last hlast (hend ▸ hbefore (as.length - 1) hgt)
    exact ⟨by rw [hend, ← hle, hok], hle⟩
  · intro ⟨hok, hk⟩
    have hbound := h.bounded
    exact ⟨by omega, hk ▸ hflake, by rw [hk, ← hend, hok]⟩

/-- The create as it is meant to end: with the status of its last attempt. -/
def HonestCreate (s : ℕ → Ran) (label node cmd : Str) : Prop :=
  ∃ as last, Attempts Flake 3 as ∧ as.getLast? = some last ∧
    calls ((runCrtmqmRetry label node cmd).run (fed s) []).1 = as.map (crtmqm node cmd) ∧
    ((runCrtmqmRetry label node cmd).run (fed s) []).2 = some (.ok last.rc)

theorem map_ran_crtmqm (node cmd : Str) (as : List Ran) : (as.map (crtmqm node cmd)).map Call.ran = as := by
  rw [List.map_map]
  exact List.map_id as

/-- A create is honest if it succeeds. -/
theorem honestCreate_iff (label node cmd : Str) : HonestCreate s label node cmd ↔ ∃ k, ClearsAt s k := by
  obtain ⟨r, hr, rfl, as, hatt, hcs⟩ := (yields_runCrtmqmRetry label node cmd).run (fed s)
  have hfeeds : Feeds s (as.map (crtmqm node cmd)) := hcs ▸ feeds_run [] rfl
  have has : as = (List.range as.length).map s := by
    have := hfeeds
    rwa [Feeds, map_ran_crtmqm, List.length_map] at this
  obtain ⟨last, hlast⟩ := hatt.exists_last
  simp only [clearsAt_iff hatt hlast has]
  constructor
  · intro ⟨as', last', _, hlast', hcs', hr'⟩
    have heq : as = as' := by
      rw [← map_ran_crtmqm node cmd as, ← map_ran_crtmqm node cmd as', ← hcs', ← hcs]
      rfl
    obtain rfl : last = last' := Option.some.inj (hlast.symm.trans (heq ▸ hlast'))
    rw [hr] at hr'
    exact ⟨_, (Except.ok.inj (Option.some.inj hr')).symm, rfl⟩
  · intro ⟨k, hok, _⟩
    exact ⟨as, last, hatt, hlast, hcs, by rw [hr, hok]⟩

/-- An attempt at the create of site A, and of site B. -/
def crtmqmA (qm : Str) : Ran → Call := crtmqm "rdqm-a1".toList (crtmqmLine qm ['p'] aWan bWan)

def crtmqmB (qm : Str) : Ran → Call := crtmqm "rdqm-b1".toList (crtmqmLine qm ['s'] bWan aWan)

/-- The script makes the create of site B only after that of site A succeeded,
goes on only after both did, and else exits with the status of the one that failed. -/
def StopsAtFailed (s : ℕ → Ran) (qm : Str) : Prop :=
  ∃ as last, Attempts Flake 3 as ∧ as.getLast? = some last ∧
    (last.rc ≠ 0 ∧ calls ((createBoth qm).run (fed s) []).1 = as.map (crtmqmA qm) ∧
        ((createBoth qm).run (fed s) []).2 = some (.error (.exit last.rc)) ∨
      last.rc = 0 ∧ ∃ bs last', Attempts Flake 3 bs ∧ bs.getLast? = some last' ∧
        calls ((createBoth qm).run (fed s) []).1 = as.map (crtmqmA qm) ++ bs.map (crtmqmB qm) ∧
        ((createBoth qm).run (fed s) []).2 = some (if last'.rc = 0 then .ok 0 else .error (.exit last'.rc)))

/-- Both creates are made, and the script goes on. -/
theorem yields_createBoth (qm : Str) : (createBoth qm).Yields see fun cs r => r = .ok 0 ∧
    ∃ as bs, Attempts Flake 3 as ∧ Attempts Flake 3 bs ∧ cs = as.map (crtmqmA qm) ++ bs.map (crtmqmB qm) := by
  have hchecked : ∀ label node cmd : Str, (checked (runCrtmqmRetry label node cmd)).Yields see fun cs r =>
      r = .ok 0 ∧ ∃ as, Attempts Flake 3 as ∧ cs = as.map (crtmqm node cmd) := fun label node cmd => by
    refine (yields_runCrtmqmRetry label node cmd).bind (fun cs status h => ?_) fun cs j h => ?_
    · obtain ⟨hstatus, as, hatt, hcs⟩ := h
      obtain rfl : status = 0 := Except.ok.inj hstatus
      exact yields_pure ⟨rfl, as, hatt, by rw [List.append_nil, hcs]⟩
    · cases h.1
  refine (hchecked _ _ _).bind (fun cs _ h => ?_) fun cs j h => ?_
  · obtain ⟨-, as, hatt, rfl⟩ := h
    refine (hchecked _ _ _).mono fun cs r h => ?_
    obtain ⟨hr, bs, hatt', rfl⟩ := h
    exact ⟨hr, as, bs, hatt, hatt', rfl⟩
  · cases h.1

theorem map_ran_both (qm : Str) (as bs : List Ran) :
    (as.map (crtmqmA qm) ++ bs.map (crtmqmB qm)).map Call.ran = as ++ bs := by
  rw [List.map_append]
  exact congrArg₂ _ (map_ran_crtmqm _ _ as) (map_ran_crtmqm _ _ bs)

/-- The script stops at a failed create if no create fails. -/
theorem stopsAtFailed_iff (qm : Str) :
    StopsAtFailed s qm ↔ ∃ k, ClearsAt s k ∧ ∃ k', ClearsAt (fun n => s (k + 1 + n)) k' := by
  obtain ⟨r, hr, rfl, as, bs, hatt, hatt', hcs⟩ := (yields_createBoth qm).run (fed s)
  have hfeeds : Feeds s (as.map (crtmqmA qm) ++ bs.map (crtmqmB qm)) := hcs ▸ feeds_run [] rfl
  obtain ⟨has, hbs⟩ : as = (List.range as.length).map s ∧
      bs = (List.range bs.length).map fun n => s (as.length + n) := by
    rw [Feeds, map_ran_both, List.length_append, List.length_map, List.length_map, List.range_add, List.map_append,
      List.map_map] at hfeeds
    exact List.append_inj hfeeds (by simp)
  obtain ⟨last, hlast⟩ := hatt.exists_last
  obtain ⟨last', hlast'⟩ := hatt'.exists_last
  have hpos : as.length - 1 + 1 = as.length := by
    have := List.length_pos_iff.mpr hatt.made
    omega
  constructor
  · intro ⟨as₁, last₁, hatt₁, hlast₁, hcase⟩
    obtain ⟨-, -, hres⟩ | ⟨hok, bs₁, last₂, hatt₂, hlast₂, hcs₁, hres⟩ := hcase
    · rw [hr] at hres
      cases hres
    · -- the attempts are those that were made
      have heq : as ++ bs = as₁ ++ bs₁ := by
        rw [← map_ran_both qm as bs, ← map_ran_both qm as₁ bs₁, ← hcs₁, ← hcs]
        rfl
      obtain rfl : as = as₁ := hatt.unique hatt₁ ⟨bs, rfl⟩ ⟨bs₁, heq.symm⟩
      obtain rfl : bs = bs₁ := List.append_cancel_left heq
      obtain rfl : last = last₁ := Option.some.inj (hlast.symm.trans hlast₁)
      obtain rfl : last' = last₂ := Option.some.inj (hlast'.symm.trans hlast₂)
      have hok' : last'.rc = 0 := by
        by_contra hne
        rw [hr, if_neg hne] at hres
        cases hres
      refine ⟨as.length - 1, (clearsAt_iff hatt hlast has).mpr ⟨hok, rfl⟩, bs.length - 1, ?_⟩
      rw [hpos]
      exact (clearsAt_iff hatt' hlast' hbs).mpr ⟨hok', rfl⟩
  · intro ⟨k, hk, k', hk'⟩
    obtain ⟨hok, rfl⟩ := (clearsAt_iff hatt hlast has).mp hk
    rw [hpos] at hk'
    obtain ⟨hok', -⟩ := (clearsAt_iff hatt' hlast' hbs).mp hk'
    exact ⟨as, last, hatt, hlast, .inr ⟨hok, bs, last', hatt', hlast', hcs, by rw [hr, if_pos hok']⟩⟩

end

/-- **When the retries are honest.** An MQSC block always is; a create is if one
of its attempts succeeds, and so is the script if both creates do. -/
theorem create_honest_iff (s : ℕ → Ran) (qm label node cmd : Str) :
    (HonestCreate s label node cmd ↔ ∃ k, ClearsAt s k) ∧
    (∃ r, ((runMqscRetry qm label cmd).run (fed s) []).2 = some r ∧
      HonestMqsc qm cmd (calls ((runMqscRetry qm label cmd).run (fed s) []).1) r) ∧
    (StopsAtFailed s qm ↔ ∃ k, ClearsAt s k ∧ ∃ k', ClearsAt (fun n => s (k + 1 + n)) k') :=
  ⟨honestCreate_iff label node cmd, (yields_runMqscRetry label cmd).run (fed s), stopsAtFailed_iff qm⟩

/-- The create of site A fails with no flake, and the script makes that of site B and goes on. -/
theorem failed_create_passes :
    let s : ℕ → Ran := fun _ => ⟨25, "AMQ7077E: You are not authorized.".toList⟩
    ((runCrtmqmRetry "create".toList "rdqm-a1".toList "crtmqm QM".toList).run (fed s) []).2 = some (.ok 0) ∧
      ¬ HonestCreate s "create".toList "rdqm-a1".toList "crtmqm QM".toList ∧
      (calls ((createBoth "QM".toList).run (fed s) []).1).map Call.node = ["rdqm-a1".toList, "rdqm-b1".toList] ∧
      ((createBoth "QM".toList).run (fed s) []).2 = some (.ok 0) ∧ ¬ StopsAtFailed s "QM".toList := by
  intro s
  refine ⟨by decide +kernel, fun h => ?_, by decide +kernel, by decide +kernel, fun h => ?_⟩
  · obtain ⟨k, -, -, hok⟩ := (honestCreate_iff _ _ _).mp h
    cases hok
  · obtain ⟨k, ⟨-, -, hok⟩, -⟩ := (stopsAtFailed_iff _).mp h
    cases hok

end QmCreate
end MqResiliency
