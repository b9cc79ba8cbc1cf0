/-
# The SVC responder

`mq-svc-responder` (`svc_responder.py`) and the dead-lettering that it shares
with the DR responder (`deadletter.py`): get a request, put its reply on the
queue that the request names, commit; on the way out back out and disconnect.

Every command may fail, and any may be cut short by an interrupt. Other
programs are at work on the queue manager all the while (`brokerEnv`).
-/
import MqResiliency.Dr.Responder
import MqResiliency.Lib.Outcome

namespace MqResiliency
namespace Svc

open Py Mq
open Dr.Responder (Dlh mqchar)

/-! ### Messages -/

/-- An object descriptor: a queue and its queue manager. -/
structure QueueName where
  name : Bytes
  qmgr : Bytes := []
deriving DecidableEq

/-- A message descriptor that says where the reply is to go. -/
structure Md extends Dr.Md where
  replyToQ : Bytes := []
  replyToQMgr : Bytes := []
deriving DecidableEq

structure Msg where
  md : Md
  body : Bytes
deriving DecidableEq

/-! ### Commands -/

inductive Cmd where
  | mqi (c : Call QueueName Msg Bytes)
  /-- Is there no deadline, or is it ahead? -/
  | beforeDeadline
  /-- The date and the time of day, as texts. -/
  | gmtime
  /-- A line on stderr. -/
  | stderr

/-- `none` is an exception other than `MQMIError`, such as an interrupt. -/
@[reducible] def Cmd.Ans : Cmd → Type
  | .mqi c => Ended (c.Out Bytes)
  | .beforeDeadline => Option Bool
  | .gmtime => Option (Str × Str)
  | .stderr => Option Unit

inductive Exn where
  | mqi (reason : Reason)
  | noDeadLetterQueue (text : Str)
  | interrupt

abbrev Client (α : Type) : Type := Prog Cmd Cmd.Ans Exn α

/-- An MQI call, raising `MQMIError`. -/
def mqi (c : Call QueueName Msg Bytes) : Client (c.Out Bytes) := do
  match ← Prog.ask (Cmd.mqi c) with
  | .ok v => pure v
  | .error r => throw (.mqi r)
  | .interrupt => throw .interrupt

def orInterrupt {α : Type} : Option α → Client α
  | some a => pure a
  | none => throw .interrupt

def beforeDeadline : Client Bool := do orInterrupt (← Prog.ask Cmd.beforeDeadline)

def gmtime : Client (Str × Str) := do orInterrupt (← Prog.ask Cmd.gmtime)

def stderr : Client Unit := do orInterrupt (← Prog.ask Cmd.stderr)

/-- `try p except MQMIError as e: h e.reason`. -/
def exceptMqi {α : Type} (p : Client α) (h : Reason → Client α) : Client α :=
  tryCatch p fun
    | .mqi r => h r
    | e => throw e

/-! ### Serving -/

structure Args where
  qmgrName : Str
  inQueue : Str

/-- The queue that is read. -/
def Args.queue (args : Args) : QueueName := ⟨encode args.inQueue, []⟩

/-- `MQRC_MISSING_REPLY_TO_Q`. -/
def missingReplyToQ : ℤ := 2027

-- `DLH.pack`, of the MQ client library
variable (pack : Dlh → Bytes)

/-- What a message is dead-lettered as. -/
def deadLetterMsg (args : Args) (req : Msg) (reason : ℤ) (who : String) (now : Str × Str) : Msg :=
  let dlh := Dr.Responder.deadLetterHeader ⟨args.qmgrName, args.inQueue, []⟩ req.md.toMd reason who now
  ⟨{ toMd := Dr.Responder.deadLetterMd req.md.toMd }, pack dlh ++ req.body⟩

def deadLetter (args : Args) (req : Msg) (reason : ℤ) (who why : String) : Client Unit := do
  let attr ← mqi .inquire
  let dlq := mqchar attr
  if dlq = [] then
    throw (.noDeadLetterQueue (args.qmgrName ++ " has no DEADQ: cannot dead-letter a message (".toList ++
      why.toList ++ ")".toList))
  let now ← gmtime
  mqi (.openQ ⟨encode dlq, []⟩)
  mqi (.put ⟨encode dlq, []⟩ (deadLetterMsg pack args req reason who now))
  mqi .closeQ
  stderr

/-- Where the reply to `req` is to go. -/
def replyQueue (req : Msg) : QueueName := ⟨req.md.replyToQ, req.md.replyToQMgr⟩

/-- The reply to `req`; its own MsgId is made by the queue manager. -/
def replyMsg (req : Msg) : Msg :=
  ⟨{ correlId := req.md.msgId.getD Dr.noCorrelId, persistence := Dr.persistent, format := req.md.format },
    encode "REPLY:".toList ++ req.body⟩

def reply (req : Msg) : Client Unit := do
  mqi (.openQ (replyQueue req))
  mqi (.put (replyQueue req) (replyMsg req))
  mqi .closeQ

def getRequest (args : Args) : Client (Option Msg) :=
  exceptMqi (do let m ← mqi (.get args.queue none); pure (some m)) fun r =>
    if r = rcNoMsgAvailable then pure none else throw (.mqi r)

/-- Answer a request, or move it aside if it says nowhere where to. -/
def serveOne (args : Args) (req : Msg) : Client Unit := do
  if mqchar req.md.replyToQ = [] then
    deadLetter pack args req missingReplyToQ "svc-responder" "blank ReplyToQ"
  else reply req
  mqi .commit

/-- The `while` of `serve`. -/
def loop (args : Args) : ℕ → Client Unit
  | 0 => .stop
  | n + 1 => do
    if !(← beforeDeadline) then return ()
    match ← getRequest args with
    | none => loop args n
    | some req => do
      serveOne pack args req
      loop args n

/-- The backout on the way out, whose failure is logged. -/
def backOut : Client Unit := exceptMqi (mqi .backout) fun _ => stderr

def serve (args : Args) (fuel : ℕ) : Client Unit := do
  mqi .connect
  Prog.ensure (tryCatch (loop pack args fuel) fun e => do
    backOut
    throw e) (mqi .disconnect)

/-! ### The queue manager -/

variable {ι : Type} [DecidableEq ι]

/-- What may answer the responder, whose connection is `i`. Before each of its
commands the other programs may have done anything on theirs. A message on a
queue has the MsgId that its put gave it. -/
def brokerEnv (deadq : Bytes) (i : ι) : Env (Broker ι QueueName Msg) Cmd Cmd.Ans
  | b, .mqi c, a, b' => ∃ (b₁ : Broker ι QueueName Msg) (e : _), b₁.conn i = b.conn i ∧
      Outcome (·.md.correlId) deadq c (b₁.conn i).usable e a ∧ b₁.CanTake e ∧
      (∀ q m, e = .took q m → ∃ id, m.md.msgId = some id) ∧ b' = b₁.apply i e
  | b, _, _, b' => b'.conn i = b.conn i

/-! ### Weakest preconditions -/

variable {σ : Type} {env : Env σ Cmd Cmd.Ans} {I : σ → Prop} {α : Type} {s : σ}

theorem wp_mqi (c : Call QueueName Msg Bytes) (Q : c.Out Bytes → σ → Prop) (E : Exn → σ → Prop) :
    (mqi c).wp env I Q E s ↔
      ∀ s', (∀ v, env s (.mqi c) (.ok v) s' → I s' ∧ Q v s') ∧
        (∀ r, env s (.mqi c) (.error r) s' → I s' ∧ E (.mqi r) s') ∧
        (env s (.mqi c) .interrupt s' → I s' ∧ E .interrupt s') := by
  simp only [mqi, Prog.wp_bind, Prog.wp_ask]
  constructor
  · exact fun h s' => ⟨fun v hv => h (.ok v) s' hv, fun r hr => h (.error r) s' hr, fun hi => h .interrupt s' hi⟩
  · intro h a s' hs
    cases a with
    | ok v => exact (h s').1 v hs
    | error r => exact (h s').2.1 r hs
    | interrupt => exact (h s').2.2 hs

@[simp] theorem wp_orInterrupt (o : Option α) (Q : α → σ → Prop) (E : Exn → σ → Prop) :
    (orInterrupt o).wp env I Q E s ↔ match o with | some a => Q a s | none => E .interrupt s := by
  cases o <;> rfl

@[simp] theorem wp_exceptMqi (p : Client α) (h : Reason → Client α) (Q : α → σ → Prop) (E : Exn → σ → Prop) :
    (exceptMqi p h).wp env I Q E s ↔
      p.wp env I Q (fun e s => match e with
        | .mqi r => (h r).wp env I Q E s
        | e => E e s) s := by
  rw [exceptMqi, Prog.wp_tryCatch]
  constructor <;>
  · refine Prog.wp_mono (fun _ _ hq => hq) (fun e s he => ?_) p s
    cases e <;> exact he

end Svc
end MqResiliency
