/-
# The clients and the MQI

What the DR clients ask of the world outside them (`Cmd`) and what that may
answer (`clientEnv`), the messages they put and get, the exceptions they
raise, and their reconnect contract (`dr_mqi.py`).
-/
import MqResiliency.Dr.Ledger
import MqResiliency.Dr.Wire
import MqResiliency.Lib.Mq
import MqResiliency.Lib.Prog

namespace MqResiliency
namespace Dr

open Py Mq

/-! ### Messages -/

/-- `MQCI_NONE`. -/
def noCorrelId : Bytes := List.replicate 24 0

/-- A message descriptor, with the defaults of `ibmmq.MD()`. A `msgId` that is
not given is one the queue manager makes on the put. -/
structure Md where
  msgId : Option Bytes := none
  correlId : Bytes := noCorrelId
  msgType : ℤ := 8
  expiry : ℤ := -1
  encoding : ℤ := 546
  codedCharSetId : ℤ := 0
  format : Bytes := List.replicate 8 32
  priority : ℤ := -1
  persistence : ℤ := 2
deriving DecidableEq

/-- `MQPER_PERSISTENT`. -/
def persistent : ℤ := 1

structure Msg where
  md : Md
  body : Bytes
deriving DecidableEq

/-! ### Commands -/

/-- A `uuid4().hex`. -/
def Uuid : Type := {u : Str // u.length = 32 ∧ ∀ c ∈ u, c.isDigit ∨ c ∈ "abcdef".toList}

inductive Cmd where
  | mqi (c : Call Str Msg Bytes)
  | keepGoing
  | flushDue
  | time
  /-- The date and the time of day, as texts. -/
  | gmtime
  | uuid4
  | append (e : LedgerEntry)
  /-- Did the write to the ledger's file succeed? -/
  | writeJsonl

@[reducible] def Cmd.Ans : Cmd → Type
  | .mqi c => c.Answer Bytes
  | .keepGoing => Bool
  | .flushDue => Bool
  | .time => Ts
  | .gmtime => Str × Str
  | .uuid4 => Uuid
  | .append _ => Unit
  | .writeJsonl => Bool

/-- What a client raises. -/
inductive Exn where
  | mqi (reason : Reason)
  | noDeadLetterQueue (text : Str)
  | notDRv1 (e : NotDRv1Error)
  | value (text : Str)
  | os

abbrev Client (α : Type) : Type := Prog Cmd Cmd.Ans Exn α

/-- An MQI call, raising `MQMIError`. -/
def mqi (c : Call Str Msg Bytes) : Client (c.Out Bytes) := do
  match ← Prog.ask (Cmd.mqi c) with
  | .ok v => pure v
  | .error r => throw (.mqi r)

/-- `try p except MQMIError as e: h e.reason`. -/
def exceptMqi {α : Type} (p : Client α) (h : Reason → Client α) : Client α :=
  tryCatch p fun
    | .mqi r => h r
    | e => throw e

/-- How `p` ended. -/
def attempt {α : Type} (p : Client α) : Client (Except Exn α) :=
  tryCatch (do let a ← p; pure (.ok a)) fun e => pure (.error e)

/-- Is the deadline ahead, and no stop asked for? -/
def keepGoing : Client Bool := Prog.ask Cmd.keepGoing

/-- Is the last flush over two seconds ago? -/
def flushDue : Client Bool := Prog.ask Cmd.flushDue

def append (event : Event) (seq : ℤ) (uuid : Str) : Client Unit := do
  let ts ← Prog.ask Cmd.time
  let _ ← Prog.ask (Cmd.append ⟨event, seq, uuid, ts⟩)

def writeJsonl : Client Unit := do
  if !(← Prog.ask Cmd.writeJsonl) then throw .os

/-! ### The reconnect contract -/

/-- `RETRY_INPLACE`: the connection is still usable. -/
def retryInplace : List Reason := [2003, 2161]

/-- `CALL_INTERRUPTED`: in doubt. -/
def callInterrupted : Reason := 2549

/-- `RECONNECT`: the connection is gone, and to be rebuilt. -/
def reconnect : List Reason := [2009, 2202, 2059, 2018]

/-- `_CONNECT_RETRY`. -/
def connectRetryReasons : List Reason := reconnect ++ [2059]

/-- MQCONNX until it succeeds; `false` once `keepGoing` is. -/
def connectRetry : ℕ → Client Bool
  | 0 => .stop
  | n + 1 => do
    if !(← keepGoing) then return false
    let connected ← exceptMqi (do mqi .connect; pure true) fun r =>
      if r ∈ connectRetryReasons then pure false else throw (.mqi r)
    if connected then return true
    connectRetry n

/-- `try: qmgr.disconnect() except MQMIError: pass`. -/
def dropConnection : Client Unit := exceptMqi (mqi .disconnect) fun _ => pure ()

/-! ### The world of one client -/

/-- A client's connection, its ledger, and the uuids it drew, in order. -/
structure World where
  conn : Conn Str Msg
  ledger : Ledger
  uuids : List Str

/-- Before the first command. -/
def World.initial : World := ⟨.initial, ⟨[]⟩, []⟩

/-- The connection after a call with the effect `e`. -/
def World.act (s : World) (e : Effect Str Msg) : World := { s with conn := s.conn.apply e }

/-- What may answer a client. `deadq` is the queue manager's `DEADQ`. -/
def clientEnv (deadq : Bytes) : Env World Cmd Cmd.Ans
  | s, .mqi c, a, s' => ∃ e, Allowed (·.md.correlId) deadq c a s.conn.usable e ∧ s' = s.act e
  | s, .uuid4, u, s' => s' = { s with uuids := s.uuids ++ [u.val] }
  | s, .append e, _, s' => s' = { s with ledger := s.ledger.append e }
  | s, _, _, s' => s' = s

/-- What is asked of no queue manager leaves the connection alone. -/
theorem conn_quiet {deadq : Bytes} {s s' : World} {c : Cmd} {a : c.Ans} (hc : ∀ x, c ≠ .mqi x) (h : clientEnv deadq s c a s') :
    s'.conn = s.conn := by
  cases c with
  | mqi x => exact absurd rfl (hc x)
  | keepGoing | flushDue | time | gmtime | uuid4 | append | writeJsonl =>
    obtain rfl : s' = _ := h
    rfl

/-! ### Weakest preconditions -/

variable {σ : Type} {env : Env σ Cmd Cmd.Ans} {I : σ → Prop} {α : Type}

theorem wp_mqi (c : Call Str Msg Bytes) (Q : c.Out Bytes → σ → Prop) (E : Exn → σ → Prop)
    (s : σ) : (mqi c).wp env I Q E s ↔
      ∀ s', (∀ v, env s (.mqi c) (.ok v) s' → I s' ∧ Q v s') ∧
        (∀ r, env s (.mqi c) (.error r) s' → I s' ∧ E (.mqi r) s') := by
  simp only [mqi, Prog.wp_bind, Prog.wp_ask]
  constructor
  · exact fun h s' => ⟨fun v hv => h (.ok v) s' hv, fun r hr => h (.error r) s' hr⟩
  · intro h a s' hs
    cases a with
    | ok v => exact (h s').1 v hs
    | error r => exact (h s').2 r hs

@[simp] theorem wp_exceptMqi (p : Client α) (h : Reason → Client α) (Q : α → σ → Prop)
    (E : Exn → σ → Prop) (s : σ) : (exceptMqi p h).wp env I Q E s ↔
      p.wp env I Q (fun e s => match e with
        | .mqi r => (h r).wp env I Q E s
        | e => E e s) s := by
  rw [exceptMqi, Prog.wp_tryCatch]
  constructor <;>
  · refine Prog.wp_mono (fun _ _ hq => hq) (fun e s he => ?_) p s
    cases e <;> exact he

@[simp] theorem wp_attempt (p : Client α) (Q : Except Exn α → σ → Prop)
    (E : Exn → σ → Prop) (s : σ) : (attempt p).wp env I Q E s ↔
      p.wp env I (fun a s => Q (.ok a) s) (fun e s => Q (.error e) s) s := by
  rw [attempt, Prog.wp_tryCatch, Prog.wp_bind]
  rfl

end Dr
end MqResiliency
