/-
# No request is consumed silently

The responder's law: a request durably removed from the input queue was
removed by a unit of work that also put its reply, or moved it to the
dead-letter queue (`Settled`).

A failed call that the loop goes on after, or that has the connection rebuilt,
is taken to have rolled the unit of work back. Where it has not
(`MQRC_Q_MGR_QUIESCING`, `MQRC_CONNECTION_QUIESCING`), the request just taken
stays in the open unit of work without an answer, and the disconnect commits
it (`run_consumes_request`). In every run in which no such failure meets an
unanswered request (`RollsBack`) the law holds at every point (`run_settled`).
-/
import MqResiliency.Dr.Responder

namespace MqResiliency
namespace Dr
namespace Responder

open Py Mq

variable (pack : Dlh → Bytes) (deadq : Bytes) (args : Args)

/-- Each request a unit of work takes is answered by one of its puts. -/
def Settled (u : Uow Str Msg) : Prop := List.Forall₂ (Answers pack deadq args) u.got u.put

/-- A failure that the loop goes on after, while the open unit of work holds a
request without its answer, has rolled it back. -/
def RollsBack : Env World Cmd Cmd.Ans
  | s, .mqi _, .error r, s' =>
    GoesOn r → ¬ Settled pack deadq args s.conn.uow → s'.conn.uow = .empty
  | _, _, _, _ => True

/-- What may answer the responder, failures rolling back. -/
def rollingEnv : Env World Cmd Cmd.Ans :=
  Prog.restrict (clientEnv deadq) (RollsBack pack deadq args)

/-! ### A request that is lost

The reply's put fails while the queue manager quiesces, the loop goes on, the
deadline passes, and the disconnect commits the get alone. -/

/-- Right after the first get. -/
def taken (args : Args) (req : Msg) : World :=
  (World.initial.act (.roll true)).act (.took args.inQueue req)

/-- A run that connects and gets `req` goes on to answer it, and if the loop
then ends, to disconnect. -/
theorem wp_taken {env : Env World Cmd Cmd.Ans} {I : World → Prop} (req : Msg)
    (henv : ∀ s c a s', clientEnv deadq s c a s' → RollsBack pack deadq args s c a s' →
      env s c a s')
    (hp : (run pack args 2).wp env I (fun _ _ => True) (fun _ _ => True) World.initial) :
    (serveOne pack args req).wp env I
      (fun _ s => (serve pack args 1).wp env I
        (fun _ s => dropConnection.wp env I (fun _ _ => True) (fun _ _ => True) s)
        (fun _ _ => True) s)
      (fun _ _ => True) (taken args req) := by
  rw [run, Prog.wp_bind, serveConnected, Prog.wp_bind, keepGoing, Prog.wp_ask] at hp
  have h₁ := (hp true _ (henv _ _ _ _ rfl trivial)).2
  simp only [Bool.not_true, Bool.false_eq_true, if_false] at h₁
  rw [Prog.wp_bind, wp_attempt, connectRetry, Prog.wp_bind, keepGoing, Prog.wp_ask] at h₁
  have h₂ := (h₁ true _ (henv _ _ _ _ rfl trivial)).2
  simp only [Bool.not_true, Bool.false_eq_true, if_false] at h₂
  rw [Prog.wp_bind, wp_exceptMqi, Prog.wp_bind, wp_mqi] at h₂
  have h₃ := ((h₂ _).1 () (henv _ _ _ _ ⟨_, rfl, rfl⟩ trivial)).2
  simp only [Prog.wp_pure, if_true, Prog.wp_bind, wp_attempt] at h₃
  rw [serve, Prog.wp_bind, keepGoing, Prog.wp_ask] at h₃
  have h₄ := (h₃ true _ (henv _ _ _ _ rfl trivial)).2
  simp only [Bool.not_true, Bool.false_eq_true, if_false] at h₄
  rw [Prog.wp_bind, getRequest, wp_exceptMqi, Prog.wp_bind, wp_mqi] at h₄
  have h₅ := ((h₄ _).1 req (henv _ _ _ _ ⟨_, ⟨rfl, by simp, rfl⟩, rfl⟩ trivial)).2
  simp only [Prog.wp_pure, Prog.wp_bind] at h₅
  refine Prog.wp_mono (fun _ s hs => ?_) (fun _ _ _ => trivial) _ _ h₅
  refine Prog.wp_mono (fun _ s hs => ?_) (fun _ _ _ => trivial) _ _ hs
  exact Prog.wp_mono (fun _ _ _ => trivial) (fun _ _ _ => trivial) _ _ hs

/-- A request whose body parses can be taken and never answered. -/
theorem run_consumes {req : Msg} {body : Bytes} {msg : WireMessage} {header : Str}
    (hsplit : splitFramed req.body = .ok (body, msg))
    (hheader : packHeader "pw".toList "SVC".toList "APP01".toList msg.sessionDate = .ok header) :
    ∃ y, Prog.Reach (clientEnv deadq) (run pack args 2, World.initial) y ∧
      ∃ u ∈ y.2.conn.log, u = ⟨[(args.inQueue, req)], []⟩ := by
  have hno : ¬ (run pack args 2).wp (clientEnv deadq)
      (fun s => ¬ ∃ u ∈ s.conn.log, u = ⟨[(args.inQueue, req)], []⟩)
      (fun _ _ => True) (fun _ _ => True) World.initial := by
    intro hp
    have h₁ := wp_taken pack deadq args req (fun _ _ _ _ h _ => h) hp
    simp only [serveOne, hsplit, reply, hheader, Prog.wp_bind, wp_exceptMqi] at h₁
    rw [wp_mqi] at h₁
    have h₂ := ((h₁ _).2 rcQMgrQuiescing ⟨_, Or.inl rfl, rfl⟩).2
    have hgo : goOn rcQMgrQuiescing = pure false := rfl
    simp only [hgo, Prog.wp_pure, Bool.false_eq_true, if_false] at h₂
    rw [serve, Prog.wp_bind, keepGoing, Prog.wp_ask] at h₂
    have h₃ := (h₂ false _ rfl).2
    simp only [Bool.not_false, if_true, Prog.wp_pure, dropConnection, wp_exceptMqi] at h₃
    rw [wp_mqi] at h₃
    exact ((h₃ _).1 () ⟨_, rfl, rfl⟩).1 ⟨_, List.mem_singleton.mpr rfl, rfl⟩
  obtain ⟨y, hy, hlog⟩ := Prog.reach_of_not_wp hno
  exact ⟨y, hy, by_contra hlog⟩

/-! ### The discipline -/

/-- Every durable unit of work is settled. -/
def AllSettled (s : World) : Prop := ∀ u ∈ s.conn.log, Settled pack deadq args u

section

variable {pack deadq args} {s s' : World}

/-- All settled, and nothing unanswered in the open unit of work. -/
def NoneOpen (pack : Dlh → Bytes) (deadq : Bytes) (args : Args) (s : World) : Prop :=
  AllSettled pack deadq args s ∧ Settled pack deadq args s.conn.uow

/-- All settled, and only the request `req` is unanswered. -/
def OneOpen (pack : Dlh → Bytes) (deadq : Bytes) (args : Args) (req : Msg) (s : World) : Prop :=
  AllSettled pack deadq args s ∧ ∃ u, Settled pack deadq args u ∧
    s.conn.uow = ⟨u.got ++ [(args.inQueue, req)], u.put⟩

theorem settled_empty : Settled pack deadq args .empty := List.Forall₂.nil

/-- A call that joins no message keeps things settled. -/
theorem NoneOpen.act {e : Effect Str Msg} (he : e.Passive) (h : NoneOpen pack deadq args s) :
    NoneOpen pack deadq args (s.act e) := by
  cases e with
  | nop => exact h
  | roll => exact ⟨h.1, settled_empty⟩
  | land =>
    refine ⟨fun u hu => ?_, settled_empty⟩
    rcases List.mem_append.mp hu with hu | hu
    · exact h.1 u hu
    · rw [List.mem_singleton.mp hu]
      exact h.2
  | took | gave => exact he.elim

/-- A call that fails while a request is open: rolled back, or nothing is left
to go on with. -/
theorem OneOpen.failed {req : Msg} {c : Call Str Msg Bytes} {r : Reason}
    (h : OneOpen pack deadq args req s)
    (hs : rollingEnv pack deadq args s (.mqi c) (.error r) s')
    (hc : ∀ usable e, Allowed (·.md.correlId) deadq c (.error r) usable e → Failed r usable e) :
    AllSettled pack deadq args s' ∧ (GoesOn r → Settled pack deadq args s'.conn.uow) := by
  obtain ⟨⟨e, he, rfl⟩, hroll⟩ := hs
  rcases (hc _ _ he).cases with rfl | ⟨b, rfl⟩
  · refine ⟨h.1, fun hr => by_contra fun hn => ?_⟩
    have hempty : s.conn.uow = .empty := hroll hr hn
    exact hn (hempty ▸ settled_empty)
  · exact ⟨h.1, fun _ => settled_empty⟩

end

/-- The responder settles what it takes. -/
def settling : Discipline pack deadq args where
  env := rollingEnv pack deadq args
  Safe := AllSettled pack deadq args
  Clear := NoneOpen pack deadq args
  Pending := OneOpen pack deadq args
  Raised r s := AllSettled pack deadq args s ∧ (GoesOn r → Settled pack deadq args s.conn.uow)
  clear_safe h := h.1
  pending_safe h := h.1
  raised_safe h := h.1
  raised_clear h hr := ⟨h.1, h.2 hr⟩
  clear_raised h := ⟨h.1, fun _ => h.2⟩
  quiet_clear hc hs h := by
    simpa [NoneOpen, AllSettled, conn_quiet hc hs.1] using h
  quiet_pending hc hs h := by
    simpa [OneOpen, AllSettled, conn_quiet hc hs.1] using h
  get h hs := by
    obtain ⟨⟨e, ⟨-, -, rfl⟩, rfl⟩, -⟩ := hs
    exact ⟨h.1, _, h.2, rfl⟩
  get_failed h hs := by
    obtain ⟨⟨e, he, rfl⟩, -⟩ := hs
    exact h.act (he.passive (by simp))
  inquire h hs := by
    obtain ⟨⟨e, ⟨-, hattr, rfl⟩, rfl⟩, -⟩ := hs
    exact ⟨hattr, h⟩
  inquire_failed h hs := h.failed hs fun _ _ he => he
  openQ h hs := by
    obtain ⟨⟨e, ⟨-, rfl⟩, rfl⟩, -⟩ := hs
    exact h
  openQ_failed h hs := h.failed hs fun _ _ he => he
  put h ha hs := by
    obtain ⟨⟨e, ⟨-, rfl⟩, rfl⟩, -⟩ := hs
    obtain ⟨hall, u, hu, huow⟩ := h
    refine ⟨hall, ?_⟩
    simp only [Settled, World.act, Conn.apply_gave, huow]
    exact List.rel_append hu (.cons ha .nil)
  put_failed h hs := h.failed hs fun _ _ he => he
  settle hc h hs := by
    obtain ⟨⟨e, he, rfl⟩, -⟩ := hs
    refine h.act (he.passive fun _ _ => ?_)
    rcases hc with rfl | rfl | rfl | rfl <;> simp
  backout {a _ _} h hs := by
    obtain ⟨⟨e, he, rfl⟩, -⟩ := hs
    obtain ⟨b, rfl⟩ : ∃ b, e = .roll b := by
      cases a with
      | ok => exact ⟨true, he.2⟩
      | error r =>
        simp only [Allowed] at he
        split at he
        · exact ⟨false, he⟩
        · exact ⟨true, he⟩
    exact ⟨h, settled_empty⟩

/-- **The responder consumes no request silently**, in any run in which the
failures it goes on after roll back: at every point, each durable unit of work
answers what it took. -/
theorem run_settled (fuel : ℕ) {y : Prog.Cfg World Cmd Cmd.Ans Exn Unit}
    (h : Prog.Reach (rollingEnv pack deadq args) (run pack args fuel, World.initial) y) :
    ∀ u ∈ y.2.conn.log, Settled pack deadq args u := by
  have h0 : NoneOpen pack deadq args World.initial :=
    ⟨fun u hu => absurd hu List.not_mem_nil, settled_empty⟩
  exact (Prog.wp_reach h h0.1 ((settling pack deadq args).wp_run fuel h0)).1

/-! ### Two runs -/

/-- A request of the app's. -/
def request : Msg := ⟨{}, encode "pw      APP01   SVC     20260608DRv1|1|u|20260608|MSG-1".toList⟩

theorem splitFramed_request : splitFramed request.body =
    .ok (encode "DRv1|1|u|20260608|MSG-1".toList, ⟨1, "u".toList, "20260608".toList, "MSG-1".toList⟩) := by
  have hbody : buildBody 1 "u".toList "20260608".toList "MSG-1".toList =
      some (encode "DRv1|1|u|20260608|MSG-1".toList) := by decide
  have hframed : request.body = encode "pw      APP01   SVC     20260608".toList ++
      encode "DRv1|1|u|20260608|MSG-1".toList := by decide
  rw [hframed]
  exact splitFramed_append (by decide) (by decide) (by decide) hbody

theorem packHeader_request : packHeader "pw".toList "SVC".toList "APP01".toList "20260608".toList =
    .ok "pw      SVC     APP01   20260608".toList := by decide

def someArgs : Args := ⟨"PCMKSVC".toList, "SVC.REQUEST".toList, "APP.REPLY".toList⟩

/-- The request is removed by a unit of work that neither answers it nor moves
it to the dead-letter queue. -/
theorem run_consumes_request : ∃ y,
    Prog.Reach (clientEnv (encode "DLQ".toList)) (run (fun _ => []) someArgs 2, World.initial) y ∧
      ∃ u ∈ y.2.conn.log, ∃ g ∈ u.got, g = (someArgs.inQueue, request) ∧
        ∀ p ∈ u.put, ¬ Answers (fun _ => []) (encode "DLQ".toList) someArgs g p := by
  obtain ⟨y, hy, u, hu, rfl⟩ := run_consumes (fun _ => []) (encode "DLQ".toList) someArgs
    splitFramed_request packHeader_request
  exact ⟨y, hy, _, hu, _, List.mem_singleton.mpr rfl, rfl, by simp⟩

/-- A run that answers the request. -/
theorem run_settled_request : ∃ y,
    Prog.Reach (rollingEnv (fun _ => []) (encode "DLQ".toList) someArgs)
      (run (fun _ => []) someArgs 2, World.initial) y ∧ y.2.conn.log ≠ [] ∧
      ∀ u ∈ y.2.conn.log, Settled (fun _ => []) (encode "DLQ".toList) someArgs u := by
  have hno : ¬ (run (fun _ => []) someArgs 2).wp
      (rollingEnv (fun _ => []) (encode "DLQ".toList) someArgs) (fun s => s.conn.log = [])
      (fun _ _ => True) (fun _ _ => True) World.initial := by
    intro hp
    have h₁ := wp_taken (fun _ => []) (encode "DLQ".toList) someArgs request
      (fun _ _ _ _ h h' => ⟨h, h'⟩) hp
    simp only [serveOne, splitFramed_request, reply, packHeader_request, Prog.wp_bind,
      wp_exceptMqi] at h₁
    rw [wp_mqi] at h₁
    have h₂ := ((h₁ _).1 () ⟨⟨_, ⟨rfl, rfl⟩, rfl⟩, trivial⟩).2
    rw [wp_mqi] at h₂
    exact absurd ((h₂ _).1 () ⟨⟨_, ⟨rfl, rfl⟩, rfl⟩, trivial⟩).1 (by simp [World.act])
  obtain ⟨y, hy, hlog⟩ := Prog.reach_of_not_wp hno
  exact ⟨y, hy, hlog, run_settled _ _ _ 2 hy⟩

end Responder
end Dr
end MqResiliency
