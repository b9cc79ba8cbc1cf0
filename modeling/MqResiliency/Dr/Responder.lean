/-
# The DR responder

`mq-dr-responder` (`dr_responder.py`) and the dead-lettering of what it cannot
answer (`deadletter.py`).

The responder asks for little: get a request, put its answer, commit, and on
the way out back out and disconnect. A `Discipline` says what is known at each
of these points and which commands keep it; `Discipline.wp_run` proves the
whole program for any of them.
-/
import MqResiliency.Dr.Mqi

namespace MqResiliency
namespace Dr
namespace Responder

open Py Mq

/-! ### Dead-lettering -/

/-- An MQDLH. -/
structure Dlh where
  reason : ℤ
  destQName : Str
  destQMgrName : Str
  encoding : ℤ
  codedCharSetId : ℤ
  format : Bytes
  putApplType : ℤ
  putApplName : Str
  putDate : Str
  putTime : Str

/-- `MQFB_APPL_FIRST`. -/
def feedbackApplFirst : ℤ := 65536

/-- `MQFMT_DEAD_LETTER_HEADER`. -/
def formatDeadLetter : Bytes := encode "MQDEAD  ".toList

/-- An MQCHAR field without its padding; a byte beyond ASCII is replaced. -/
def mqchar (value : Bytes) : Str :=
  let text := value.map fun b => if b < 128 then Char.ofNat b.toNat else Char.ofNat 0xFFFD
  let pad (c : Char) : Bool := c = ' ' ∨ c = Char.ofNat 0
  (text.dropWhile pad).rdropWhile pad

structure Args where
  qm : Str
  inQueue : Str
  outQueue : Str

/-- The descriptor a message is dead-lettered with. -/
def deadLetterMd (req : Md) : Md :=
  { msgId := req.msgId, correlId := req.correlId, msgType := req.msgType,
    persistence := req.persistence, priority := req.priority, format := formatDeadLetter }

/-- The header a message is dead-lettered behind. -/
def deadLetterHeader (args : Args) (req : Md) (reason : ℤ) (who : String) (now : Str × Str) : Dlh where
  reason := reason
  destQName := args.inQueue
  destQMgrName := args.qm
  encoding := req.encoding
  codedCharSetId := req.codedCharSetId
  format := req.format
  putApplType := 6
  putApplName := "mq-".toList ++ who.toList
  putDate := now.1
  putTime := now.2

-- `DLH.pack`, of the MQ client library
variable (pack : Dlh → Bytes)

/-- `dead_letter`, up to its line on stderr. -/
def deadLetter (args : Args) (req : Msg) (reason : ℤ) (who : String) (why : Str) : Client Unit := do
  let attr ← mqi .inquire
  let dlq := mqchar attr
  if dlq = [] then
    throw (.noDeadLetterQueue (args.qm ++ " has no DEADQ: cannot dead-letter a message (".toList ++
      why ++ ")".toList))
  let now ← Prog.ask Cmd.gmtime
  let dlh := deadLetterHeader args req.md reason who now
  mqi (.openQ dlq)
  mqi (.put dlq ⟨deadLetterMd req.md, pack dlh ++ req.body⟩)
  mqi .closeQ

/-! ### Serving -/

/-- A get, put or commit failed: go on (`false`), or raise. -/
def goOn (r : Reason) : Client Bool :=
  if r ∈ retryInplace ∨ r = callInterrupted then pure false else throw (.mqi r)

def getRequest (args : Args) : Client (Option Msg) :=
  exceptMqi (do let m ← mqi (.get args.inQueue none); pure (some m)) fun r =>
    if r = rcNoMsgAvailable then pure none else do let _ ← goOn r; pure none

/-- Move a message that is not ours to answer aside. -/
def reject (args : Args) (req : Msg) (exc : NotDRv1Error) : Client Bool :=
  exceptMqi (do deadLetter pack args req feedbackApplFirst "dr-responder" exc.why
                mqi .commit
                pure true) goOn

/-- The reply to `req`, whose body is `body`. -/
def replyMsg (header : Str) (body : Bytes) (req : Md) : Msg :=
  ⟨{ persistence := persistent, correlId := req.correlId }, encode header ++ body⟩

/-- Answer a request; `true` once the answer is committed. -/
def reply (args : Args) (req : Msg) (body : Bytes) (msg : WireMessage) : Client Bool :=
  match packHeader "pw".toList "SVC".toList "APP01".toList msg.sessionDate with
  | .error e => throw (.value e)
  | .ok header =>
    exceptMqi (do mqi (.put args.outQueue (replyMsg header body req.md))
                  mqi .commit
                  pure true) goOn

/-- RECEIVED and REPLIED, only after a clean commit. -/
def record (msg : WireMessage) : Client Unit := do
  append .received msg.seq msg.uuid
  append .replied msg.seq msg.uuid
  if ← flushDue then writeJsonl

def serveOne (args : Args) (req : Msg) : Client Unit := do
  match splitFramed req.body with
  | .error exc => let _ ← reject pack args req exc
  | .ok (body, msg) => if ← reply args req body msg then record msg

/-- `_serve`: get, reply, commit on one connection. -/
def serve (args : Args) : ℕ → Client Unit
  | 0 => .stop
  | n + 1 => do
    if !(← keepGoing) then return ()
    match ← getRequest args with
    | none => pure ()
    | some req => serveOne pack args req
    serve args n

/-- The `try` of `_run`: is a connection left, and how it ended. -/
def serveConnected (args : Args) (fuel : ℕ) : ℕ → Client (Bool × Except Exn Unit)
  | 0 => .stop
  | n + 1 => do
    if !(← keepGoing) then return (false, .ok ())
    match ← attempt (connectRetry fuel) with
    | .error e => return (false, .error e)
    | .ok false => return (false, .ok ())
    | .ok true =>
      match ← attempt (serve pack args fuel) with
      | .ok _ => return (true, .ok ())
      | .error (.mqi r) =>
        if r ∈ reconnect then
          dropConnection
          serveConnected args fuel n
        else return (true, .error (.mqi r))
      | .error e => return (true, .error e)

/-- `_run`. -/
def run (args : Args) (fuel : ℕ) : Client Unit := do
  let (connected, ended) ← serveConnected pack args fuel fuel
  match ended with
  | .ok _ => pure ()
  | .error _ => if connected then exceptMqi (mqi .backout) fun _ => pure ()
  if connected then dropConnection
  writeJsonl
  match ended with
  | .ok _ => pure ()
  | .error e => throw e

/-! ### Answers -/

variable (deadq : Bytes) (args : Args)

/-- `p` is the reply to the request `g`, or `g` on the dead-letter queue. -/
inductive Answers : Str × Msg → Str × Msg → Prop
  | reply {req : Msg} {body : Bytes} {msg : WireMessage} {header : Str} :
      splitFramed req.body = .ok (body, msg) →
      packHeader "pw".toList "SVC".toList "APP01".toList msg.sessionDate = .ok header →
      Answers (args.inQueue, req) (args.outQueue, replyMsg header body req.md)
  | reject {req : Msg} {exc : NotDRv1Error} {now : Str × Str} :
      splitFramed req.body = .error exc →
      Answers (args.inQueue, req) (mqchar deadq, ⟨deadLetterMd req.md,
        pack (deadLetterHeader args req.md feedbackApplFirst "dr-responder" now) ++ req.body⟩)

/-- The loop goes on after a failure with `r`, on this connection or the next. -/
def GoesOn (r : Reason) : Prop := r ∈ retryInplace ∨ r = callInterrupted ∨ r ∈ reconnect

/-! ### What is known along the way -/

/-- Calls that settle the unit of work, or leave it as it is. -/
def Settling (c : Call Str Msg Bytes) : Prop :=
  c = .connect ∨ c = .closeQ ∨ c = .commit ∨ c = .disconnect

/-- What is known at each point of the responder, against the answers of
`env`: always (`Safe`), with nothing unanswered (`Clear`), with the request
`req` unanswered (`Pending`), and after a call failed (`Raised`). -/
structure Discipline where
  env : Env World Cmd Cmd.Ans
  Safe : World → Prop
  Clear : World → Prop
  Pending : Msg → World → Prop
  Raised : Reason → World → Prop
  clear_safe {s} : Clear s → Safe s
  pending_safe {req s} : Pending req s → Safe s
  raised_safe {r s} : Raised r s → Safe s
  raised_clear {r s} : Raised r s → GoesOn r → Clear s
  clear_raised {r s} : Clear s → Raised r s
  quiet_clear {c a s s'} : (∀ x, c ≠ .mqi x) → env s c a s' → Clear s → Clear s'
  quiet_pending {req c a s s'} : (∀ x, c ≠ .mqi x) → env s c a s' → Pending req s → Pending req s'
  get {req s s'} : Clear s → env s (.mqi (.get args.inQueue none)) (.ok req) s' → Pending req s'
  get_failed {r s s'} : Clear s → env s (.mqi (.get args.inQueue none)) (.error r) s' → Clear s'
  inquire {req attr s s'} : Pending req s → env s (.mqi .inquire) (.ok attr) s' →
    attr = deadq ∧ Pending req s'
  inquire_failed {req r s s'} : Pending req s → env s (.mqi .inquire) (.error r) s' → Raised r s'
  openQ {req q v s s'} : Pending req s → env s (.mqi (.openQ q)) (.ok v) s' → Pending req s'
  openQ_failed {req q r s s'} : Pending req s → env s (.mqi (.openQ q)) (.error r) s' → Raised r s'
  put {req q m v s s'} : Pending req s → Answers pack deadq args (args.inQueue, req) (q, m) →
    env s (.mqi (.put q m)) (.ok v) s' → Clear s'
  put_failed {req q m r s s'} : Pending req s → env s (.mqi (.put q m)) (.error r) s' → Raised r s'
  settle {c a s s'} : Settling c → Clear s → env s (.mqi c) a s' → Clear s'
  backout {a s s'} : Safe s → env s (.mqi .backout) a s' → Clear s'

namespace Discipline

variable {pack deadq args} (D : Discipline pack deadq args) {s : World}

/-- After an exception. -/
def Failed : Exn → World → Prop
  | .mqi r, s => D.Raised r s
  | _, s => D.Safe s

variable {D}

theorem clear_failed (h : D.Clear s) (e : Exn) : D.Failed e s := by
  cases e with
  | mqi r => exact D.clear_raised h
  | noDeadLetterQueue | notDRv1 | value | os => exact D.clear_safe h

theorem failed_safe {e : Exn} (h : D.Failed e s) : D.Safe s := by
  cases e with
  | mqi r => exact D.raised_safe h
  | noDeadLetterQueue | notDRv1 | value | os => exact h

/-! ### Commands -/

theorem wp_quiet {c : Cmd} (hc : ∀ x, c ≠ .mqi x) (h : D.Clear s) {Q : c.Ans → World → Prop}
    {E : Exn → World → Prop} (hQ : ∀ a s', D.Clear s' → Q a s') :
    (Prog.ask c).wp D.env D.Safe Q E s := by
  intro a s' hs
  have h' := D.quiet_clear hc hs h
  exact ⟨D.clear_safe h', hQ a s' h'⟩

theorem wp_settle {c : Call Str Msg Bytes} (hc : Settling c) (h : D.Clear s)
    {Q : c.Out Bytes → World → Prop} {E : Exn → World → Prop} (hok : ∀ v s', D.Clear s' → Q v s')
    (herr : ∀ r s', D.Clear s' → E (.mqi r) s') : (mqi c).wp D.env D.Safe Q E s := by
  rw [wp_mqi]
  refine fun s' => ⟨fun v hv => ?_, fun r hr => ?_⟩
  · have h' := D.settle hc h hv
    exact ⟨D.clear_safe h', hok v s' h'⟩
  · have h' := D.settle hc h hr
    exact ⟨D.clear_safe h', herr r s' h'⟩

theorem wp_put {req m : Msg} {q : Str} (h : D.Pending req s)
    (ha : Answers pack deadq args (args.inQueue, req) (q, m)) :
    (mqi (.put q m)).wp D.env D.Safe (fun _ => D.Clear) D.Failed s := by
  rw [wp_mqi]
  refine fun s' => ⟨fun v hv => ?_, fun r hr => ?_⟩
  · have h' := D.put h ha hv
    exact ⟨D.clear_safe h', h'⟩
  · have h' := D.put_failed h hr
    exact ⟨D.raised_safe h', h'⟩

theorem wp_dropConnection (h : D.Clear s) {Q : Unit → World → Prop} {E : Exn → World → Prop}
    (hQ : ∀ s', D.Clear s' → Q () s') : dropConnection.wp D.env D.Safe Q E s := by
  rw [dropConnection, wp_exceptMqi]
  exact wp_settle (by simp [Settling]) h (fun _ s' h' => hQ s' h') fun _ s' h' => hQ s' h'

theorem wp_backout (h : D.Safe s) {Q : Unit → World → Prop} {E : Exn → World → Prop}
    (hQ : ∀ s', D.Clear s' → Q () s') :
    (exceptMqi (mqi .backout) fun _ => pure ()).wp D.env D.Safe Q E s := by
  rw [wp_exceptMqi, wp_mqi]
  refine fun s' => ⟨fun v hv => ?_, fun r hr => ?_⟩
  · have h' := D.backout h hv
    exact ⟨D.clear_safe h', hQ s' h'⟩
  · have h' := D.backout h hr
    exact ⟨D.clear_safe h', hQ s' h'⟩

/-! ### One request -/

theorem wp_goOn {r : Reason} (h : D.Raised r s) {Q : Bool → World → Prop}
    (hQ : D.Clear s → Q false s) : (goOn r).wp D.env D.Safe Q D.Failed s := by
  rw [goOn]
  split
  · rename_i hr
    exact hQ (D.raised_clear h (hr.elim Or.inl fun hr => Or.inr (Or.inl hr)))
  · exact h

theorem wp_getRequest (h : D.Clear s) {Q : Option Msg → World → Prop}
    (hnone : ∀ s', D.Clear s' → Q none s') (hsome : ∀ m s', D.Pending m s' → Q (some m) s') :
    (getRequest args).wp D.env D.Safe Q D.Failed s := by
  rw [getRequest, wp_exceptMqi, Prog.wp_bind, wp_mqi]
  refine fun s' => ⟨fun req hreq => ?_, fun r hr => ?_⟩
  · have h' := D.get h hreq
    exact ⟨D.pending_safe h', hsome req s' h'⟩
  · have h' := D.get_failed h hr
    refine ⟨D.clear_safe h', ?_⟩
    by_cases hr : r = rcNoMsgAvailable
    · simpa [hr] using hnone s' h'
    · simp only [hr, if_false, Prog.wp_bind]
      exact wp_goOn (D.clear_raised h') fun _ => hnone s' h'

theorem wp_deadLetter {req : Msg} {exc : NotDRv1Error} (h : D.Pending req s)
    (hexc : splitFramed req.body = .error exc) :
    (deadLetter pack args req feedbackApplFirst "dr-responder" exc.why).wp D.env D.Safe
      (fun _ => D.Clear) D.Failed s := by
  rw [deadLetter, Prog.wp_bind, wp_mqi]
  refine fun s₁ => ⟨fun attr hattr => ?_, fun r hr => ?_⟩
  swap
  · have h₁ := D.inquire_failed h hr
    exact ⟨D.raised_safe h₁, h₁⟩
  obtain ⟨hattr, h₁⟩ := D.inquire h hattr
  refine ⟨D.pending_safe h₁, ?_⟩
  rw [hattr]
  by_cases hdlq : mqchar deadq = []
  · simp only [hdlq, if_true, Prog.wp_bind, Prog.wp_throw]
    exact D.pending_safe h₁
  simp only [hdlq, if_false]
  rw [Prog.wp_bind]
  intro now s₂ hs₂
  have h₂ := D.quiet_pending (by simp) hs₂ h₁
  refine ⟨D.pending_safe h₂, ?_⟩
  rw [Prog.wp_ret, Prog.wp_bind, wp_mqi]
  refine fun s₃ => ⟨fun _ hv => ?_, fun r hr => ?_⟩
  swap
  · have h₃ := D.openQ_failed h₂ hr
    exact ⟨D.raised_safe h₃, h₃⟩
  have h₃ := D.openQ h₂ hv
  refine ⟨D.pending_safe h₃, ?_⟩
  rw [Prog.wp_bind]
  refine Prog.wp_post (wp_put h₃ (.reject hexc)) fun _ s₄ h₄ => ?_
  exact wp_settle (by simp [Settling]) h₄ (fun _ _ h => h) fun r _ h => clear_failed h _

/-- What fails with a reason to go on is caught. -/
theorem wp_exceptGoOn {p : Client Bool} {Q : Bool → World → Prop}
    (hp : p.wp D.env D.Safe Q D.Failed s) (hQ : ∀ s', D.Clear s' → Q false s') :
    (exceptMqi p goOn).wp D.env D.Safe Q D.Failed s := by
  rw [wp_exceptMqi]
  refine Prog.wp_mono (fun _ _ h => h) (fun e s₁ h₁ => ?_) _ _ hp
  cases e with
  | mqi r => exact wp_goOn h₁ fun h₂ => hQ s₁ h₂
  | noDeadLetterQueue | notDRv1 | value | os => exact h₁

/-- Once the answer is put. -/
theorem wp_commit (h : D.Clear s) :
    (do mqi .commit; pure true : Client Bool).wp D.env D.Safe (fun _ => D.Clear) D.Failed s := by
  rw [Prog.wp_bind]
  exact wp_settle (by simp [Settling]) h (fun _ _ h' => h') fun r _ h' => clear_failed h' _

theorem wp_reject {req : Msg} {exc : NotDRv1Error} (h : D.Pending req s)
    (hexc : splitFramed req.body = .error exc) :
    (reject pack args req exc).wp D.env D.Safe (fun _ => D.Clear) D.Failed s := by
  refine wp_exceptGoOn ?_ fun _ h' => h'
  rw [Prog.wp_bind]
  exact Prog.wp_mono (fun _ s₁ h₁ => wp_commit h₁) (fun _ _ h' => h') _ _ (wp_deadLetter h hexc)

theorem wp_reply {req : Msg} {body : Bytes} {msg : WireMessage} (h : D.Pending req s)
    (hsplit : splitFramed req.body = .ok (body, msg)) :
    (reply args req body msg).wp D.env D.Safe (fun _ => D.Clear) D.Failed s := by
  rw [reply]
  split
  · exact D.pending_safe h
  · rename_i header hheader
    refine wp_exceptGoOn ?_ fun _ h' => h'
    rw [Prog.wp_bind]
    exact Prog.wp_mono (fun _ s₁ h₁ => wp_commit h₁) (fun _ _ h' => h') _ _
      (wp_put h (.reply hsplit hheader))

theorem wp_writeJsonl (h : D.Clear s) {Q : Unit → World → Prop} {E : Exn → World → Prop}
    (hQ : ∀ s', D.Clear s' → Q () s') (hE : ∀ s', D.Clear s' → E .os s') :
    writeJsonl.wp D.env D.Safe Q E s := by
  rw [writeJsonl, Prog.wp_bind]
  refine wp_quiet (by simp) h fun wrote s₁ h₁ => ?_
  cases wrote
  · exact hE s₁ h₁
  · exact hQ s₁ h₁

theorem wp_append (h : D.Clear s) (event : Event) (seq : ℤ) (uuid : Str) {Q : Unit → World → Prop}
    {E : Exn → World → Prop} (hQ : ∀ s', D.Clear s' → Q () s') :
    (append event seq uuid).wp D.env D.Safe Q E s := by
  rw [append, Prog.wp_bind]
  refine wp_quiet (by simp) h fun ts s₁ h₁ => ?_
  rw [Prog.wp_bind]
  exact wp_quiet (by simp) h₁ fun _ s₂ h₂ => hQ s₂ h₂

theorem wp_record (h : D.Clear s) (msg : WireMessage) {Q : Unit → World → Prop}
    (hQ : ∀ s', D.Clear s' → Q () s') : (record msg).wp D.env D.Safe Q D.Failed s := by
  rw [record, Prog.wp_bind]
  refine wp_append h _ _ _ fun s₁ h₁ => ?_
  rw [Prog.wp_bind]
  refine wp_append h₁ _ _ _ fun s₂ h₂ => ?_
  rw [Prog.wp_bind, flushDue]
  refine wp_quiet (by simp) h₂ fun due s₃ h₃ => ?_
  cases due
  · exact hQ s₃ h₃
  · exact wp_writeJsonl h₃ hQ fun s₄ h₄ => clear_failed h₄ _

theorem wp_serveOne {req : Msg} (h : D.Pending req s) {Q : Unit → World → Prop}
    (hQ : ∀ s', D.Clear s' → Q () s') : (serveOne pack args req).wp D.env D.Safe Q D.Failed s := by
  rw [serveOne]
  split
  · rename_i exc hexc
    rw [Prog.wp_bind]
    exact Prog.wp_mono (fun _ s₁ h₁ => hQ s₁ h₁) (fun _ _ h' => h') _ _ (wp_reject h hexc)
  · rename_i body msg hsplit
    rw [Prog.wp_bind]
    refine Prog.wp_mono (fun b s₁ h₁ => ?_) (fun _ _ h' => h') _ _ (wp_reply h hsplit)
    cases b
    · exact hQ s₁ h₁
    · exact wp_record h₁ msg hQ

/-! ### The run -/

theorem wp_serve : ∀ (n : ℕ) {s : World}, D.Clear s →
    (serve pack args n).wp D.env D.Safe (fun _ => D.Clear) D.Failed s
  | 0, _, _ => trivial
  | n + 1, s, h => by
    rw [serve, Prog.wp_bind, keepGoing]
    refine wp_quiet (by simp) h fun going s₁ h₁ => ?_
    cases going
    · exact h₁
    simp only [Bool.not_true, Bool.false_eq_true, if_false]
    rw [Prog.wp_bind]
    refine wp_getRequest h₁ (fun s₂ h₂ => ?_) fun req s₂ h₂ => ?_
    · exact wp_serve n h₂
    · exact (Prog.wp_bind _ _ _ _ _).mpr (wp_serveOne h₂ fun s₃ h₃ => wp_serve n h₃)

theorem wp_connectRetry : ∀ (n : ℕ) {s : World}, D.Clear s →
    (connectRetry n).wp D.env D.Safe (fun _ => D.Clear) (fun _ => D.Clear) s
  | 0, _, _ => trivial
  | n + 1, s, h => by
    rw [connectRetry, Prog.wp_bind, keepGoing]
    refine wp_quiet (by simp) h fun going s₁ h₁ => ?_
    cases going
    · exact h₁
    simp only [Bool.not_true, Bool.false_eq_true, if_false]
    rw [Prog.wp_bind, wp_exceptMqi, Prog.wp_bind]
    refine wp_settle (by simp [Settling]) h₁ (fun _ s₂ h₂ => h₂) fun r s₂ h₂ => ?_
    by_cases hr : r ∈ connectRetryReasons
    · simp only [hr, if_true, Prog.wp_pure, Bool.false_eq_true, if_false]
      exact wp_connectRetry n h₂
    · simp only [hr, if_false, Prog.wp_throw]
      exact h₂

/-- What is left for `finally`: nothing unanswered where the `try` ended well. -/
theorem wp_serveConnected (fuel : ℕ) : ∀ (n : ℕ) {s : World}, D.Clear s →
    (serveConnected pack args fuel n).wp D.env D.Safe
      (fun out s => D.Safe s ∧ ((out.1 = false ∨ out.2.isOk) → D.Clear s)) (fun _ _ => False) s
  | 0, _, _ => trivial
  | n + 1, s, h => by
    rw [serveConnected, Prog.wp_bind, keepGoing]
    refine wp_quiet (by simp) h fun going s₁ h₁ => ?_
    cases going
    · exact ⟨D.clear_safe h₁, fun _ => h₁⟩
    simp only [Bool.not_true, Bool.false_eq_true, if_false, Prog.wp_bind, wp_attempt]
    refine Prog.wp_mono (fun up s₂ h₂ => ?_) (fun e s₂ h₂ => ⟨D.clear_safe h₂, fun _ => h₂⟩) _ _
      (wp_connectRetry fuel h₁)
    cases up
    · exact ⟨D.clear_safe h₂, fun _ => h₂⟩
    simp only [Prog.wp_bind, wp_attempt]
    refine Prog.wp_mono (fun _ s₃ h₃ => ⟨D.clear_safe h₃, fun _ => h₃⟩) (fun e s₃ h₃ => ?_) _ _
      (wp_serve fuel h₂)
    have hsafe : D.Safe s₃ := failed_safe h₃
    cases e with
    | mqi r =>
      by_cases hr : r ∈ reconnect
      · simp only [hr, if_true, Prog.wp_bind]
        refine wp_dropConnection (D.raised_clear h₃ (Or.inr (Or.inr hr))) fun s₄ h₄ => ?_
        exact wp_serveConnected fuel n h₄
      · simp only [hr, if_false]
        exact ⟨hsafe, by simp [Except.isOk, Except.toBool]⟩
    | noDeadLetterQueue | notDRv1 | value | os =>
      exact ⟨hsafe, by simp [Except.isOk, Except.toBool]⟩

/-- `finally`, once nothing is unanswered. -/
theorem wp_finally (connected : Bool) (h : D.Clear s) {k : Client Unit}
    (hk : ∀ s, k.wp D.env D.Safe (fun _ _ => True) (fun _ _ => True) s) :
    (do if connected then dropConnection
        writeJsonl
        k : Client Unit).wp D.env D.Safe (fun _ _ => True) (fun _ _ => True) s := by
  cases connected
  · simp only [Bool.false_eq_true, if_false]
    rw [Prog.wp_bind]
    exact wp_writeJsonl h (fun s₁ _ => hk s₁) fun _ _ => trivial
  · simp only [if_true]
    rw [Prog.wp_bind]
    refine wp_dropConnection h fun s₁ h₁ => ?_
    rw [Prog.wp_bind]
    exact wp_writeJsonl h₁ (fun s₂ _ => hk s₂) fun _ _ => trivial

/-- **The responder keeps a discipline** at every command. -/
theorem wp_run (fuel : ℕ) (h : D.Clear s) :
    (run pack args fuel).wp D.env D.Safe (fun _ _ => True) (fun _ _ => True) s := by
  rw [run, Prog.wp_bind]
  refine Prog.wp_mono (fun out s₁ h₁ => ?_) (fun _ _ h => h.elim) _ _
    (wp_serveConnected fuel fuel h)
  obtain ⟨connected, ended⟩ := out
  cases ended with
  | ok => exact wp_finally connected (h₁.2 (Or.inr rfl)) fun _ => trivial
  | error e =>
    cases connected
    · exact wp_finally false (h₁.2 (Or.inl rfl)) fun _ => trivial
    · simp only [if_true]
      rw [Prog.wp_bind]
      exact wp_backout h₁.1 fun s₂ h₂ => wp_finally true h₂ fun _ => trivial

end Discipline
end Responder
end Dr
end MqResiliency
