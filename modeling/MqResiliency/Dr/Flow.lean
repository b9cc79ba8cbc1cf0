/-
# The app's flow

The producer and the consumer of `mq-dr-flow` (`dr_flow.py`), and what the
producer's requests carry: `splitFramed_request` reads a request back.
-/
import MqResiliency.Dr.Mqi

namespace MqResiliency
namespace Dr
namespace Flow

open Py Mq

structure Args where
  reqQueue : Str
  replyQueue : Str
  correlId : Bytes
  /-- `int(expiry * 10)`, or `MQEI_UNLIMITED`. -/
  expiryTenths : ℤ

/-! ### The messages -/

/-- What `str` says of an integer with too many digits. -/
def intTextLimit : Str := ("Exceeds the limit (4300 digits) for integer string conversion; " ++
  "use sys.set_int_max_str_digits() to increase the limit").toList

/-- A message that is built and not yet recorded as sent. -/
structure Pending where
  seq : ℤ
  uuid : Str
  payload : Bytes

def sessionDate : Str := "20260608".toList

def buildPending (seq : ℤ) (uuid : Str) : Except Str Pending :=
  match str seq with
  | none => .error intTextLimit
  | some text =>
    match buildBody seq uuid sessionDate ("MSG-".toList ++ text),
        packHeader "pw".toList "APP01".toList "SVC".toList sessionDate with
    | none, _ => .error intTextLimit
    | some _, .error e => .error e
    | some body, .ok header => .ok ⟨seq, uuid, encode header ++ body⟩

def requestMsg (args : Args) (p : Pending) : Msg :=
  ⟨{ persistence := persistent, expiry := args.expiryTenths, correlId := args.correlId }, p.payload⟩

/-! ### The producer -/

inductive Outcome where
  | done
  | rebuild
  | again

/-- Is the connection still there. -/
def Outcome.live : Outcome → Bool
  | .rebuild => false
  | _ => true

/-- After a failed put or commit of the producer. -/
def sendFailed (r : Reason) : Client Outcome :=
  if r ∈ reconnect then do
    dropConnection
    pure .rebuild
  else if r = callInterrupted then pure .again
  else if r ∈ retryInplace then do
    exceptMqi (mqi .backout) fun _ => pure ()
    pure .again
  else throw (.mqi r)

def send (args : Args) (p : Pending) : Client Outcome :=
  exceptMqi (do mqi (.put args.reqQueue (requestMsg args p))
                mqi .commit
                pure .done) sendFailed

/-- The pending message, or the next one. -/
def nextPending : ℤ → Option Pending → Client (ℤ × Pending)
  | seq, some p => pure (seq, p)
  | seq, none => do
    let u ← Prog.ask Cmd.uuid4
    match buildPending (seq + 1) u.val with
    | .error e => throw (.value e)
    | .ok p => pure (seq + 1, p)

/-- SENT, only after a clean commit. -/
def recordSent (p : Pending) : Client Unit := do
  append .sent p.seq p.uuid
  if ← flushDue then writeJsonl

/-- A connection: the one there is, or a new one. -/
def connected (fuel : ℕ) (live : Bool) : Client Bool :=
  if live then pure true else connectRetry fuel

/-- The loop of `producer`: is a connection left. -/
def produceLoop (args : Args) (fuel : ℕ) : ℕ → (live : Bool) → (seq : ℤ) → Option Pending → Client Bool
  | 0, _, _, _ => .stop
  | n + 1, live, seq, pending => do
    if !(← keepGoing) then return live
    if !(← connected fuel live) then return false
    let (seq, p) ← nextPending seq pending
    match ← send args p with
    | .done =>
      recordSent p
      produceLoop args fuel n true seq none
    | .rebuild => produceLoop args fuel n false seq (some p)
    | .again => produceLoop args fuel n true seq (some p)

def producer (args : Args) (fuel : ℕ) : Client Unit := do
  let live ← produceLoop args fuel fuel false 0 none
  if live then dropConnection

/-! ### The consumer -/

/-- After a failed get or commit of the consumer. -/
def takeFailed (r : Reason) : Client Outcome :=
  if r ∈ reconnect then do
    dropConnection
    pure .rebuild
  else if r ∈ retryInplace ∨ r = callInterrupted then pure .again
  else throw (.mqi r)

/-- The next reply of this run. -/
def getReply (args : Args) : Client (Except Outcome Msg) :=
  exceptMqi (do let m ← mqi (.get args.replyQueue (some args.correlId)); pure (.ok m)) fun r =>
    if r = rcNoMsgAvailable then pure (.error .again)
    else do
      let o ← takeFailed r
      pure (.error o)

/-- A reply: parse it, commit, record it as confirmed. -/
def confirm (reply : Msg) : Client Outcome := do
  match splitFramed reply.body with
  | .error exc =>
    mqi .backout
    throw (.notDRv1 exc)
  | .ok (_, msg) =>
    let o ← exceptMqi (do mqi .commit; pure .done) takeFailed
    match o with
    | .done =>
      append .confirmed msg.seq msg.uuid
      pure .done
    | o => pure o

/-- The loop of `consumer`: is a connection left. -/
def consumeLoop (args : Args) (fuel : ℕ) : ℕ → (live : Bool) → Client Bool
  | 0, _ => .stop
  | n + 1, live => do
    if !(← keepGoing) then return live
    if !(← connected fuel live) then return false
    let o ← match ← getReply args with
      | .error o => pure o
      | .ok reply => confirm reply
    consumeLoop args fuel n o.live

def consumer (args : Args) (fuel : ℕ) : Client Unit := do
  let live ← consumeLoop args fuel fuel false
  if live then dropConnection

/-! ### What the producer's messages carry -/

/-- `m` carries the key `k` and the run's CorrelId. -/
def Carries (args : Args) (k : ℤ × Str) (m : Msg) : Prop :=
  m.md.correlId = args.correlId ∧
    ∃ body msg, splitFramed m.body = .ok (body, msg) ∧ (msg.seq, msg.uuid) = k

/-- `m` is the request the producer builds for the key `k`. -/
def IsRequest (args : Args) (k : ℤ × Str) (m : Msg) : Prop :=
  '|' ∉ k.2 ∧ ∃ p, buildPending k.1 k.2 = .ok p ∧ m = requestMsg args p

theorem bar_not_mem_uuid (u : Uuid) : '|' ∉ u.val := by
  intro h
  rcases u.property.2 _ h with h | h
  · exact absurd h (by decide)
  · exact absurd h (by decide)

theorem buildPending_ok {seq : ℤ} {uuid : Str} {p : Pending} (h : buildPending seq uuid = .ok p) :
    p.seq = seq ∧ p.uuid = uuid ∧ ∃ payload body, buildBody seq uuid sessionDate payload = some body ∧
      p.payload = encode "pw      APP01   SVC     20260608".toList ++ body := by
  have hheader : packHeader "pw".toList "APP01".toList "SVC".toList sessionDate =
      .ok "pw      APP01   SVC     20260608".toList := by decide
  simp only [buildPending, hheader] at h
  split at h
  · exact absurd h (by simp)
  · rename_i text _
    split at h
    · exact absurd h (by simp)
    · exact absurd h (by simp)
    · rename_i body _ hbody heq
      obtain rfl := Except.ok.inj h
      obtain rfl := Except.ok.inj heq
      exact ⟨rfl, rfl, _, body, hbody, rfl⟩

/-- A request parses back to its key. -/
theorem splitFramed_request {args : Args} {k : ℤ × Str} {m : Msg} (h : IsRequest args k m) :
    ∃ payload body, buildBody k.1 k.2 sessionDate payload = some body ∧
      splitFramed m.body = .ok (body, ⟨k.1, k.2, sessionDate, payload⟩) := by
  obtain ⟨hbar, p, hp, rfl⟩ := h
  obtain ⟨-, -, payload, body, hbody, hpayload⟩ := buildPending_ok hp
  refine ⟨payload, body, hbody, ?_⟩
  rw [requestMsg, hpayload]
  exact splitFramed_append (by decide) hbar (by decide) hbody

theorem IsRequest.carries {args : Args} {k : ℤ × Str} {m : Msg} (h : IsRequest args k m) :
    Carries args k m := by
  obtain ⟨payload, body, -, hsplit⟩ := splitFramed_request h
  obtain ⟨-, p, -, rfl⟩ := h
  exact ⟨rfl, body, _, hsplit, rfl⟩

end Flow
end Dr
end MqResiliency
