/-
# Get and answer share a unit of work

The SVC responder's law: each request that leaves the input queue for good
leaves it in the unit of work that puts its reply, or moves it to the
dead-letter queue (`Settled`).

Every failure ends the loop, and the backout before the disconnect gives the
request in hand back. A backout that fails is logged and no more; if it has
left the request in the open unit of work of a handle that still works, the
disconnect commits the get alone (`backout_failure_consumes`). Where no
backout does that (`BacksOut`) the law holds at every point of every run
(`serve_settled`).
-/
import MqResiliency.Svc.Responder

namespace MqResiliency
namespace Svc

open Py Mq
open Dr.Responder (Dlh mqchar)

variable (pack : Dlh → Bytes) (deadq : Bytes) (args : Args)

/-- `p` is the reply to the request `g`, or `g` behind a header on the
dead-letter queue. -/
inductive Answers : QueueName × Msg → QueueName × Msg → Prop
  | reply {req m : Msg} {id : Bytes} : mqchar req.md.replyToQ ≠ [] → req.md.msgId = some id →
      m.md.correlId = id → m.body = encode "REPLY:".toList ++ req.body →
      Answers (args.queue, req) (⟨req.md.replyToQ, req.md.replyToQMgr⟩, m)
  | aside {req : Msg} (now : Str × Str) : mqchar req.md.replyToQ = [] →
      Answers (args.queue, req) (⟨encode (mqchar deadq), []⟩,
        deadLetterMsg pack args req missingReplyToQ "svc-responder" now)

/-- Each request that a unit of work takes is answered by one of its puts. -/
def Settled (u : Uow QueueName Msg) : Prop := List.Forall₂ (Answers pack deadq args) u.got u.put

section

variable {ι : Type} (i : ι)

/-- Every durable unit of work is settled. -/
def AllSettled (b : Broker ι QueueName Msg) : Prop := ∀ u ∈ (b.conn i).log, Settled pack deadq args u

/-- A backout leaves no unanswered request in the unit of work of a handle
that works. -/
def BacksOut : Env (Broker ι QueueName Msg) Cmd Cmd.Ans
  | _, .mqi .backout, _, b' => (b'.conn i).usable = true → Settled pack deadq args (b'.conn i).uow
  | _, _, _, _ => True

end

variable {ι : Type} [DecidableEq ι] (i : ι)

/-- What may answer the responder, backouts backing out. -/
def backingEnv : Env (Broker ι QueueName Msg) Cmd Cmd.Ans :=
  Prog.restrict (brokerEnv deadq i) (BacksOut pack deadq args i)

section

variable {pack deadq args i} {b b' : Broker ι QueueName Msg}

/-! ### The unit of work along the way -/

/-- All settled, and the open unit of work satisfies `P`. -/
def Holds (pack : Dlh → Bytes) (deadq : Bytes) (args : Args) (i : ι) (P : Uow QueueName Msg → Prop)
    (b : Broker ι QueueName Msg) : Prop := AllSettled pack deadq args i b ∧ P (b.conn i).uow

/-- Nothing is open. -/
def Free (u : Uow QueueName Msg) : Prop := u = .empty

/-- The request `req` is in hand, unanswered. -/
def InHand (args : Args) (req : Msg) (u : Uow QueueName Msg) : Prop := u = ⟨[(args.queue, req)], []⟩

/-- The request in hand is answered. -/
def Answered (pack : Dlh → Bytes) (deadq : Bytes) (args : Args) (u : Uow QueueName Msg) : Prop :=
  ∃ g p, Answers pack deadq args g p ∧ u = ⟨[g], [p]⟩

/-- What an exception may leave open: at most one request, answered or not. -/
def Left (pack : Dlh → Bytes) (deadq : Bytes) (args : Args) (u : Uow QueueName Msg) : Prop :=
  Free u ∨ (∃ req, InHand args req u) ∨ Answered pack deadq args u

theorem Answered.settled {u : Uow QueueName Msg} (h : Answered pack deadq args u) : Settled pack deadq args u := by
  obtain ⟨g, p, hans, rfl⟩ := h
  exact .cons hans .nil

theorem Free.settled {u : Uow QueueName Msg} (h : Free u) : Settled pack deadq args u := by
  rw [h]
  exact .nil

/-- What the effect of a call leaves settled. -/
theorem AllSettled.apply {e : Effect QueueName Msg} (h : AllSettled pack deadq args i b)
    (hland : ∀ usable, e = .land usable → Settled pack deadq args (b.conn i).uow) :
    AllSettled pack deadq args i (b.apply i e) := by
  intro u hu
  simp only [Broker.apply, Function.update_self] at hu
  cases e with
  | nop | took | gave | roll => exact h u hu
  | land usable =>
    rcases List.mem_append.mp hu with hu | hu
    · exact h u hu
    · rw [List.mem_singleton.mp hu]
      exact hland usable rfl

theorem conn_apply (e : Effect QueueName Msg) : (b.apply i e).conn i = (b.conn i).apply e := by
  simp only [Broker.apply, Function.update_self]

/-- What a call does on the responder's connection. -/
theorem exists_effect {c : Call QueueName Msg Bytes} {a : Ended (c.Out Bytes)}
    (h : backingEnv pack deadq args i b (.mqi c) a b') :
    ∃ (b₁ : Broker ι QueueName Msg) (e : Effect QueueName Msg), b₁.conn i = b.conn i ∧
      Outcome (·.md.correlId) deadq c (b.conn i).usable e a ∧
      (∀ q m, e = .took q m → ∃ id, m.md.msgId = some id) ∧ b' = b₁.apply i e := by
  obtain ⟨⟨b₁, e, hconn, hout, -, hid, rfl⟩, -⟩ := h
  exact ⟨b₁, e, hconn, hconn ▸ hout, hid, rfl⟩

/-- When the responder may issue a call. -/
def Fits (pack : Dlh → Bytes) (deadq : Bytes) (args : Args) (s : Conn QueueName Msg) :
    Call QueueName Msg Bytes → Prop
  | .get q _ => q = args.queue ∧ Free s.uow
  | .put q m => ∃ req, InHand args req s.uow ∧ Answers pack deadq args (args.queue, req) (q, m)
  | .commit => s.usable = true → Settled pack deadq args s.uow
  | .disconnect => s.usable = true → Settled pack deadq args s.uow
  | _ => True

/-- **A call that fits leaves** everything settled, and at most one request
open, however it ends. -/
theorem Holds.step {c : Call QueueName Msg Bytes} {a : Ended (c.Out Bytes)}
    (h : Holds pack deadq args i (Left pack deadq args) b) (hfits : Fits pack deadq args (b.conn i) c)
    (henv : backingEnv pack deadq args i b (.mqi c) a b') :
    Holds pack deadq args i (Left pack deadq args) b' := by
  obtain ⟨b₁, e, hconn, hout, -, rfl⟩ := exists_effect henv
  have hall : AllSettled pack deadq args i b₁ := fun u hu => h.1 u (hconn ▸ hu)
  refine ⟨hall.apply fun usable hland => ?_, ?_⟩
  · subst hland
    rw [hconn]
    obtain ⟨husable, rfl | rfl⟩ := hout.land
    · exact hfits husable
    · exact hfits husable
  · rw [conn_apply, hconn]
    cases e with
    | nop => exact h.2
    | land | roll => exact .inl rfl
    | took q m =>
      obtain ⟨sel, rfl⟩ := hout.took
      obtain ⟨rfl, hfree⟩ := hfits
      refine .inr (.inl ⟨m, ?_⟩)
      rw [InHand, Conn.apply_took, hfree]
      rfl
    | gave q m =>
      obtain rfl := hout.gave
      obtain ⟨req, hreq, hans⟩ := hfits
      refine .inr (.inr ⟨_, _, hans, ?_⟩)
      rw [Conn.apply_gave, hreq]
      rfl

/-! ### Commands -/

variable {α : Type} {Q : α → Broker ι QueueName Msg → Prop}

/-- The invariant of a run. -/
abbrev Inv (pack : Dlh → Bytes) (deadq : Bytes) (args : Args) (i : ι) : Broker ι QueueName Msg → Prop :=
  Holds pack deadq args i (Left pack deadq args)

/-- A call that succeeds ends in `Q`, and one that does not leaves the invariant. -/
theorem wp_call {c : Call QueueName Msg Bytes} (hc : c ≠ .disconnect) (h : Inv pack deadq args i b)
    (hfits : Fits pack deadq args (b.conn i) c) {Q : c.Out Bytes → Broker ι QueueName Msg → Prop}
    (hok : ∀ v e b', Does (·.md.correlId) deadq c v e → (∀ q m, e = .took q m → ∃ id, m.md.msgId = some id) →
      Holds pack deadq args i (· = ((b.conn i).apply e).uow) b' → Q v b') :
    (mqi c).wp (backingEnv pack deadq args i) (Inv pack deadq args i) Q (fun _ => Inv pack deadq args i) b := by
  rw [wp_mqi]
  refine fun b' => ⟨fun v hv => ?_, fun r hr => ?_, fun hi => ?_⟩
  · have hinv := h.step hfits hv
    obtain ⟨b₁, e, hconn, hout, hid, rfl⟩ := exists_effect hv
    refine ⟨hinv, ?_⟩
    rcases hout with ⟨-, hdoes⟩ | ⟨-, hdis, -⟩
    · exact hok v e _ hdoes hid ⟨hinv.1, by rw [conn_apply, hconn]⟩
    · exact absurd hdis hc
  · exact ⟨h.step hfits hr, h.step hfits hr⟩
  · exact ⟨h.step hfits hi, h.step hfits hi⟩

/-- A call that does nothing to the unit of work keeps what is open. -/
theorem wp_nop {c : Call QueueName Msg Bytes} (hc : c ≠ .disconnect)
    (hnop : ∀ v e, Does (·.md.correlId) deadq c v e → e = .nop) (hfits : Fits pack deadq args (b.conn i) c)
    {P : Uow QueueName Msg → Prop} (hP : ∀ u, P u → Left pack deadq args u) (h : Holds pack deadq args i P b)
    {Q : c.Out Bytes → Broker ι QueueName Msg → Prop}
    (hok : ∀ v e b', Does (·.md.correlId) deadq c v e → Holds pack deadq args i P b' → Q v b') :
    (mqi c).wp (backingEnv pack deadq args i) (Inv pack deadq args i) Q (fun _ => Inv pack deadq args i) b := by
  refine wp_call hc ⟨h.1, hP _ h.2⟩ hfits fun v e b' hdoes _ h' => hok v e b' hdoes ⟨h'.1, ?_⟩
  have huow := h'.2
  rw [hnop v e hdoes] at huow
  exact huow ▸ h.2

theorem wp_openQ {q : QueueName} {P : Uow QueueName Msg → Prop} (hP : ∀ u, P u → Left pack deadq args u)
    (h : Holds pack deadq args i P b) {Q : Unit → Broker ι QueueName Msg → Prop}
    (hok : ∀ b', Holds pack deadq args i P b' → Q () b') :
    (mqi (.openQ q)).wp (backingEnv pack deadq args i) (Inv pack deadq args i) Q (fun _ => Inv pack deadq args i) b :=
  wp_nop (c := .openQ q) (by simp) (fun _ _ h => h) trivial hP h fun _ _ b' _ h' => hok b' h'

theorem wp_closeQ {P : Uow QueueName Msg → Prop} (hP : ∀ u, P u → Left pack deadq args u)
    (h : Holds pack deadq args i P b) {Q : Unit → Broker ι QueueName Msg → Prop}
    (hok : ∀ b', Holds pack deadq args i P b' → Q () b') :
    (mqi .closeQ).wp (backingEnv pack deadq args i) (Inv pack deadq args i) Q (fun _ => Inv pack deadq args i) b :=
  wp_nop (c := .closeQ) (by simp) (fun _ _ h => h) trivial hP h fun _ _ b' _ h' => hok b' h'

/-- Nothing is asked of the queue manager. -/
theorem wp_other {c : Cmd} (hc : ∀ x, c ≠ .mqi x) {P : Uow QueueName Msg → Prop}
    (hP : ∀ u, P u → Left pack deadq args u) (h : Holds pack deadq args i P b)
    {Q : c.Ans → Broker ι QueueName Msg → Prop} {E : Exn → Broker ι QueueName Msg → Prop}
    (hok : ∀ a b', Holds pack deadq args i P b' → Q a b') :
    (Prog.ask c : Client c.Ans).wp (backingEnv pack deadq args i) (Inv pack deadq args i) Q E b := by
  intro a b' henv
  have hconn : b'.conn i = b.conn i := by
    cases c with
    | mqi x => exact absurd rfl (hc x)
    | beforeDeadline | gmtime | stderr => exact henv.1
  have h' : Holds pack deadq args i P b' := ⟨fun u hu => h.1 u (hconn ▸ hu), hconn.symm ▸ h.2⟩
  exact ⟨⟨h'.1, hP _ h'.2⟩, hok a b' h'⟩

theorem wp_stderr {P : Uow QueueName Msg → Prop} (hP : ∀ u, P u → Left pack deadq args u)
    (h : Holds pack deadq args i P b) {Q : Unit → Broker ι QueueName Msg → Prop}
    {E : Exn → Broker ι QueueName Msg → Prop} (hok : ∀ b', Holds pack deadq args i P b' → Q () b')
    (hraise : ∀ b', Holds pack deadq args i P b' → E .interrupt b') :
    stderr.wp (backingEnv pack deadq args i) (Inv pack deadq args i) Q E b := by
  rw [stderr, Prog.wp_bind]
  refine wp_other (by simp) hP h fun a b' h' => ?_
  cases a with
  | none => exact hraise b' h'
  | some _ => exact hok b' h'

/-! ### One request -/

theorem left_of_inHand {req : Msg} (u : Uow QueueName Msg) (h : InHand args req u) : Left pack deadq args u :=
  .inr (.inl ⟨req, h⟩)

theorem left_of_answered (u : Uow QueueName Msg) (h : Answered pack deadq args u) : Left pack deadq args u :=
  .inr (.inr h)

theorem wp_put {req m : Msg} {q : QueueName} (h : Holds pack deadq args i (InHand args req) b)
    (hans : Answers pack deadq args (args.queue, req) (q, m)) {Q : Unit → Broker ι QueueName Msg → Prop}
    (hok : ∀ b', Holds pack deadq args i (Answered pack deadq args) b' → Q () b') :
    (mqi (.put q m)).wp (backingEnv pack deadq args i) (Inv pack deadq args i) Q (fun _ => Inv pack deadq args i) b := by
  refine wp_call (c := .put q m) (by simp) ⟨h.1, left_of_inHand _ h.2⟩ ⟨req, h.2, hans⟩ fun _ e b' hdoes _ h' =>
    hok b' ⟨h'.1, _, _, hans, ?_⟩
  obtain rfl : e = .gave q m := hdoes
  rw [h'.2, Conn.apply_gave, h.2]
  rfl

theorem wp_commit (h : Holds pack deadq args i (Answered pack deadq args) b)
    {Q : Unit → Broker ι QueueName Msg → Prop} (hok : ∀ b', Holds pack deadq args i Free b' → Q () b') :
    (mqi .commit).wp (backingEnv pack deadq args i) (Inv pack deadq args i) Q (fun _ => Inv pack deadq args i) b := by
  refine wp_call (c := .commit) (by simp) ⟨h.1, left_of_answered _ h.2⟩ (fun _ => h.2.settled) fun _ e b' hdoes _ h' =>
    hok b' ⟨h'.1, ?_⟩
  obtain rfl : e = .land true := hdoes
  exact h'.2

theorem wp_deadLetter {req : Msg} (h : Holds pack deadq args i (InHand args req) b)
    (hblank : mqchar req.md.replyToQ = []) {Q : Unit → Broker ι QueueName Msg → Prop}
    (hok : ∀ b', Holds pack deadq args i (Answered pack deadq args) b' → Q () b') :
    (deadLetter pack args req missingReplyToQ "svc-responder" "blank ReplyToQ").wp (backingEnv pack deadq args i)
      (Inv pack deadq args i) Q (fun _ => Inv pack deadq args i) b := by
  rw [deadLetter, Prog.wp_bind]
  refine wp_nop (c := .inquire) (by simp) (fun _ _ h => h.2) trivial left_of_inHand h fun attr _ b₁ hattr h₁ => ?_
  obtain rfl : attr = deadq := hattr.1
  by_cases hdlq : mqchar attr = []
  · simp only [hdlq, if_true, Prog.wp_bind, Prog.wp_throw]
    exact ⟨h₁.1, left_of_inHand _ h₁.2⟩
  simp only [hdlq, if_false]
  rw [Prog.wp_bind, gmtime, Prog.wp_bind]
  refine wp_other (by simp) left_of_inHand h₁ fun now b₂ h₂ => ?_
  cases now with
  | none => exact ⟨h₂.1, left_of_inHand _ h₂.2⟩
  | some now =>
    simp only [wp_orInterrupt, Prog.wp_bind]
    refine wp_openQ left_of_inHand h₂ fun b₃ h₃ => ?_
    refine wp_put h₃ (.aside now hblank) fun b₄ h₄ => ?_
    refine wp_closeQ left_of_answered h₄ fun b₅ h₅ => ?_
    exact wp_stderr left_of_answered h₅ hok fun b₆ h₆ => ⟨h₆.1, left_of_answered _ h₆.2⟩

theorem wp_reply {req : Msg} {id : Bytes} (h : Holds pack deadq args i (InHand args req) b)
    (hid : req.md.msgId = some id) (hnamed : mqchar req.md.replyToQ ≠ []) {Q : Unit → Broker ι QueueName Msg → Prop}
    (hok : ∀ b', Holds pack deadq args i (Answered pack deadq args) b' → Q () b') :
    (reply req).wp (backingEnv pack deadq args i) (Inv pack deadq args i) Q (fun _ => Inv pack deadq args i) b := by
  simp only [reply, Prog.wp_bind]
  refine wp_openQ left_of_inHand h fun b₁ h₁ => ?_
  have hans : Answers pack deadq args (args.queue, req) (replyQueue req, replyMsg req) :=
    .reply hnamed hid (by rw [replyMsg, hid]; rfl) rfl
  exact wp_put h₁ hans fun b₂ h₂ => wp_closeQ left_of_answered h₂ hok

theorem wp_serveOne {req : Msg} {id : Bytes} (h : Holds pack deadq args i (InHand args req) b)
    (hid : req.md.msgId = some id) {Q : Unit → Broker ι QueueName Msg → Prop}
    (hok : ∀ b', Holds pack deadq args i Free b' → Q () b') :
    (serveOne pack args req).wp (backingEnv pack deadq args i) (Inv pack deadq args i) Q
      (fun _ => Inv pack deadq args i) b := by
  rw [serveOne]
  split
  · rename_i hblank
    rw [Prog.wp_bind]
    exact wp_deadLetter h hblank fun b₁ h₁ => wp_commit h₁ hok
  · rename_i hnamed
    rw [Prog.wp_bind]
    exact wp_reply h hid hnamed fun b₁ h₁ => wp_commit h₁ hok

theorem wp_getRequest (h : Holds pack deadq args i Free b) {Q : Option Msg → Broker ι QueueName Msg → Prop}
    (hnone : ∀ b', Holds pack deadq args i Free b' → Q none b')
    (hsome : ∀ req id b', req.md.msgId = some id → Holds pack deadq args i (InHand args req) b' → Q (some req) b') :
    (getRequest args).wp (backingEnv pack deadq args i) (Inv pack deadq args i) Q
      (fun _ => Inv pack deadq args i) b := by
  have hinv : Inv pack deadq args i b := ⟨h.1, .inl h.2⟩
  have hfits : Fits pack deadq args (b.conn i) (.get args.queue none) := ⟨rfl, h.2⟩
  rw [getRequest, wp_exceptMqi, Prog.wp_bind, wp_mqi]
  refine fun b' => ⟨fun req hreq => ⟨hinv.step hfits hreq, ?_⟩, fun r hr => ⟨hinv.step hfits hr, ?_⟩, fun hi => ?_⟩
  · obtain ⟨b₁, e, hconn, hout, hid, rfl⟩ := exists_effect hreq
    obtain ⟨-, -, rfl⟩ | ⟨-, h, -⟩ := hout
    · obtain ⟨id, hid⟩ := hid _ _ rfl
      refine hsome req id _ hid ⟨(hinv.step hfits hreq).1, ?_⟩
      rw [conn_apply, hconn, InHand, Conn.apply_took, h.2]
      rfl
    · cases h
  · by_cases hnomsg : r = rcNoMsgAvailable
    · simp only [hnomsg, if_true, Prog.wp_pure]
      have hinv' := hinv.step hfits hr
      obtain ⟨b₁, e, hconn, hout, -, rfl⟩ := exists_effect hr
      refine hnone _ ⟨hinv'.1, ?_⟩
      -- No message was taken, so there is none in hand.
      rw [conn_apply, hconn]
      rcases hout.1.cases with rfl | ⟨usable, rfl⟩ | ⟨-, ⟨v, -, rfl⟩ | ⟨h, -⟩⟩
      · exact h.2
      · rfl
      · exact absurd rfl (hout.2 hnomsg _ _)
      · cases h
    · simp only [hnomsg, if_false, Prog.wp_throw]
      exact hinv.step hfits hr
  · exact ⟨hinv.step hfits hi, hinv.step hfits hi⟩

/-! ### The run -/

theorem wp_loop : ∀ (n : ℕ) {b : Broker ι QueueName Msg}, Holds pack deadq args i Free b →
    (loop pack args n).wp (backingEnv pack deadq args i) (Inv pack deadq args i)
      (fun _ => Holds pack deadq args i Free) (fun _ => Inv pack deadq args i) b
  | 0, _, _ => trivial
  | n + 1, b, h => by
    rw [loop, Prog.wp_bind, beforeDeadline, Prog.wp_bind]
    refine wp_other (by simp) (fun _ => .inl) h fun going b₁ h₁ => ?_
    cases going with
    | none => exact ⟨h₁.1, .inl h₁.2⟩
    | some going =>
      cases going
      · exact h₁
      simp only [wp_orInterrupt, Bool.not_true, Bool.false_eq_true, if_false]
      rw [Prog.wp_bind]
      refine wp_getRequest h₁ (fun b₂ h₂ => wp_loop n h₂) fun req id b₂ hid h₂ => ?_
      exact (Prog.wp_bind _ _ _ _ _).mpr (wp_serveOne h₂ hid fun b₃ h₃ => wp_loop n h₃)

/-- What is left of the backout: nothing that a disconnect must not commit. -/
def Safe (pack : Dlh → Bytes) (deadq : Bytes) (args : Args) (i : ι) (b : Broker ι QueueName Msg) : Prop :=
  Inv pack deadq args i b ∧ ((b.conn i).usable = true → Settled pack deadq args (b.conn i).uow)

theorem wp_backOut (h : Inv pack deadq args i b) {Q : Unit → Broker ι QueueName Msg → Prop}
    {E : Exn → Broker ι QueueName Msg → Prop} (hQ : ∀ b', Safe pack deadq args i b' → Q () b')
    (hE : ∀ b', Safe pack deadq args i b' → E .interrupt b') :
    backOut.wp (backingEnv pack deadq args i) (Inv pack deadq args i) Q E b := by
  have hsafe : ∀ {a : Ended Unit} {b'}, backingEnv pack deadq args i b (.mqi .backout) a b' →
      Safe pack deadq args i b' := fun henv => ⟨h.step (c := .backout) trivial henv, henv.2⟩
  rw [backOut, wp_exceptMqi, wp_mqi]
  refine fun b' => ⟨fun _ hok => ⟨(hsafe hok).1, hQ b' (hsafe hok)⟩, fun r hr => ⟨(hsafe hr).1, ?_⟩,
    fun hi => ⟨(hsafe hi).1, hE b' (hsafe hi)⟩⟩
  simp only [stderr, Prog.wp_bind]
  rintro a b'' ⟨hconn, -⟩
  have hsafe' : Safe pack deadq args i b'' := by
    simp only [Safe, Inv, Holds, AllSettled, show b''.conn i = b'.conn i from hconn]
    exact hsafe hr
  refine ⟨hsafe'.1, ?_⟩
  cases a with
  | none => exact hE b'' hsafe'
  | some _ => exact hQ b'' hsafe'

theorem wp_disconnect (h : Safe pack deadq args i b) :
    (mqi .disconnect).wp (backingEnv pack deadq args i) (Inv pack deadq args i) (fun _ _ => True) (fun _ _ => True) b := by
  rw [wp_mqi]
  have hstep : ∀ {a : Ended Unit} {b'}, backingEnv pack deadq args i b (.mqi .disconnect) a b' →
      Inv pack deadq args i b' := fun henv => h.1.step (c := .disconnect) h.2 henv
  exact fun b' => ⟨fun _ hok => ⟨hstep hok, trivial⟩, fun _ hr => ⟨hstep hr, trivial⟩, fun hi => ⟨hstep hi, trivial⟩⟩

/-- **The responder keeps the invariant** at every command. -/
theorem wp_serve (fuel : ℕ) (h : Holds pack deadq args i Free b) :
    (serve pack args fuel).wp (backingEnv pack deadq args i) (Inv pack deadq args i) (fun _ _ => True)
      (fun _ _ => True) b := by
  rw [serve, Prog.wp_bind]
  refine Prog.wp_mono (fun _ _ h => h) (fun _ _ _ => trivial) _ _
    (wp_call (c := .connect) (by simp) ⟨h.1, .inl h.2⟩ trivial fun _ e b₁ hdoes _ h₁ => ?_)
  obtain rfl : e = .roll true := hdoes
  rw [Prog.wp_ensure, Prog.wp_tryCatch]
  refine Prog.wp_mono (fun _ b₂ h₂ => ?_) (fun e b₂ h₂ => ?_) _ _ (wp_loop fuel ⟨h₁.1, h₁.2⟩)
  · exact wp_disconnect ⟨⟨h₂.1, .inl h₂.2⟩, fun _ => h₂.2.settled⟩
  · rw [Prog.wp_bind]
    exact wp_backOut h₂ (fun b₃ h₃ => wp_disconnect h₃) fun b₃ h₃ => wp_disconnect h₃

/-- The message in hand is back on its queue, and none is in hand. -/
def Returned (args : Args) (i : ι) (b b' : Broker ι QueueName Msg) : Prop :=
  (b'.conn i).uow = .empty ∧ ∀ g ∈ (b.conn i).uow.got, g.1 = args.queue ∧ g.2 ∈ b'.avail args.queue

/-- A backout that succeeds returns the message in hand. -/
theorem Inv.returned (h : Inv pack deadq args i b) (henv : brokerEnv deadq i b (.mqi .backout) (.ok ()) b') :
    Returned args i b b' := by
  obtain ⟨b₁, e, hconn, hout, -, -, rfl⟩ := henv
  obtain ⟨-, rfl⟩ | ⟨-, h, -⟩ := hout
  · refine ⟨by rw [conn_apply]; rfl, fun g hg => ?_⟩
    have hqueue : g.1 = args.queue := by
      rcases h.2 with hfree | ⟨req, hreq⟩ | ⟨g', p, hans, heq⟩
      · rw [hfree] at hg
        cases hg
      · rw [hreq] at hg
        rw [List.mem_singleton.mp hg]
      · rw [heq] at hg
        rw [List.mem_singleton.mp hg]
        cases hans <;> rfl
    refine ⟨hqueue, List.mem_append_right _ (Broker.mem_onQueue.mpr ?_)⟩
    rw [hconn, ← hqueue]
    exact hg
  · cases h

end

/-! ### A run that takes a request -/

section

variable {pack deadq args i} {b : Broker ι QueueName Msg}

/-- A call that nothing comes between. -/
theorem brokerEnv_mqi {c : Call QueueName Msg Bytes} {a : Ended (c.Out Bytes)} {e : Effect QueueName Msg}
    (hout : Outcome (·.md.correlId) deadq c (b.conn i).usable e a) (hcan : b.CanTake e)
    (hid : ∀ q m, e = .took q m → ∃ id, m.md.msgId = some id) : brokerEnv deadq i b (.mqi c) a (b.apply i e) :=
  ⟨b, e, rfl, hout, hcan, hid, rfl⟩

/-- A run that connects and gets `req` goes on to answer it. -/
theorem wp_taken {env : Env (Broker ι QueueName Msg) Cmd Cmd.Ans} {I : Broker ι QueueName Msg → Prop} {req : Msg}
    {id : Bytes} (hid : req.md.msgId = some id) (hreq : req ∈ b.avail args.queue)
    (henv : ∀ b c a b', brokerEnv deadq i b c a b' → BacksOut pack deadq args i b c a b' → env b c a b')
    (hp : (serve pack args 1).wp env I (fun _ _ => True) (fun _ _ => True) b) :
    (serveOne pack args req).wp env I
      (fun _ _ => True)
      (fun _ b => backOut.wp env I (fun _ b => (mqi .disconnect).wp env I (fun _ _ => True) (fun _ _ => True) b)
        (fun _ _ => True) b)
      ((b.apply i (.roll true)).apply i (.took args.queue req)) := by
  have husable : ((b.apply i (.roll true)).conn i).usable = true := by rw [conn_apply]; rfl
  rw [serve, Prog.wp_bind, wp_mqi] at hp
  have h₁ := ((hp _).1 () (henv _ _ _ _ (brokerEnv_mqi (e := .roll true) (.inl ⟨.inr rfl, rfl⟩) trivial (by simp)) trivial)).2
  rw [Prog.wp_ensure, Prog.wp_tryCatch, loop, Prog.wp_bind, beforeDeadline, Prog.wp_bind] at h₁
  have h₂ := (h₁ (some true) _ (henv _ _ _ _ rfl trivial)).2
  simp only [wp_orInterrupt, Prog.wp_ret, Bool.not_true, Bool.false_eq_true, if_false] at h₂
  rw [Prog.wp_bind, getRequest, wp_exceptMqi, Prog.wp_bind, wp_mqi] at h₂
  have hget : brokerEnv deadq i (b.apply i (.roll true)) (.mqi (.get args.queue none)) (.ok req)
      ((b.apply i (.roll true)).apply i (.took args.queue req)) := by
    refine brokerEnv_mqi (.inl ⟨.inl husable, by simp, rfl⟩) (List.mem_append_left _ hreq) fun q m hm => ⟨id, ?_⟩
    cases hm
    exact hid
  have h₃ := ((h₂ _).1 req (henv _ _ _ _ hget trivial)).2
  simp only [Prog.wp_pure, Prog.wp_bind] at h₃
  refine Prog.wp_mono (fun _ _ _ => trivial) (fun e b' hb' => ?_) _ _ h₃
  exact Prog.wp_mono (fun _ _ hd => Prog.wp_mono (fun _ _ _ => trivial) (fun _ _ _ => trivial) _ _ hd)
    (fun _ _ _ => trivial) _ _ hb'

end

/-- **Get and answer share a unit of work**, at every point of every run whose
backouts back out; and a backout that succeeds gives the message in hand back. -/
theorem serve_settled (fuel : ℕ) {b : Broker ι QueueName Msg} (hb : b.conn i = .initial)
    {y : Prog.Cfg (Broker ι QueueName Msg) Cmd Cmd.Ans Exn Unit}
    (hy : Prog.Reach (backingEnv pack deadq args i) (serve pack args fuel, b) y) :
    (∀ u ∈ (y.2.conn i).log, Settled pack deadq args u) ∧
      ∀ k b', y.1 = .call (.mqi .backout) k → brokerEnv deadq i y.2 (.mqi .backout) (.ok ()) b' →
        Returned args i y.2 b' := by
  have hstart : Holds pack deadq args i Free b := by
    simp only [Holds, AllSettled, hb]
    exact ⟨fun u hu => (nomatch hu), rfl⟩
  have hinv := (Prog.wp_reach hy ⟨hstart.1, .inl hstart.2⟩ (wp_serve fuel hstart)).1
  exact ⟨hinv.1, fun k b' _ henv => hinv.returned henv⟩

/-- A request, and the queue that it is on. -/
def oneRequest : Msg := ⟨{ msgId := some [1], replyToQ := encode "APP.REPLY".toList }, encode "hello".toList⟩

def oneQueue : Broker Unit QueueName Msg :=
  ⟨fun q => if q = ⟨encode "SVC.REQUEST".toList, []⟩ then [oneRequest] else [], fun _ => .initial⟩

/-- A run that answers the request. -/
theorem serve_settled_one : ∃ y,
    Prog.Reach (backingEnv (fun _ => []) (encode "DLQ".toList) ⟨"SVCQM".toList, "SVC.REQUEST".toList⟩ ())
      (serve (fun _ => []) ⟨"SVCQM".toList, "SVC.REQUEST".toList⟩ 1, oneQueue) y ∧
    (∃ u ∈ (y.2.conn ()).log, u.got = [(⟨encode "SVC.REQUEST".toList, []⟩, oneRequest)]) ∧
    ∀ u ∈ (y.2.conn ()).log, Settled (fun _ => []) (encode "DLQ".toList) ⟨"SVCQM".toList, "SVC.REQUEST".toList⟩ u := by
  have hnamed : mqchar oneRequest.md.replyToQ ≠ [] := by decide +kernel
  have hno : ¬ (serve (fun _ => []) ⟨"SVCQM".toList, "SVC.REQUEST".toList⟩ 1).wp
      (backingEnv (fun _ => []) (encode "DLQ".toList) ⟨"SVCQM".toList, "SVC.REQUEST".toList⟩ ())
      (fun b => ¬ ∃ u ∈ (b.conn ()).log, u.got = [(⟨encode "SVC.REQUEST".toList, []⟩, oneRequest)])
      (fun _ _ => True) (fun _ _ => True) oneQueue := by
    intro hp
    have hid : oneRequest.md.msgId = some _ := rfl
    have h₁ := wp_taken hid (List.mem_singleton.mpr rfl) (fun _ _ _ _ h hb => ⟨h, hb⟩) hp
    simp only [serveOne, hnamed, if_false, reply, Prog.wp_bind] at h₁
    have hok : ∀ {c : Call QueueName Msg Bytes} {b : Broker Unit QueueName Msg} (v : c.Out Bytes) (e : _),
        c ≠ .backout → (b.conn ()).usable = true → Does (·.md.correlId) (encode "DLQ".toList) c v e → b.CanTake e →
        (∀ q m, e ≠ .took q m) →
        backingEnv (fun _ => []) (encode "DLQ".toList) ⟨"SVCQM".toList, "SVC.REQUEST".toList⟩ () b (.mqi c) (.ok v) (b.apply () e) := by
      intro c b v e hc husable hdoes hcan htook
      refine ⟨brokerEnv_mqi (.inl ⟨.inl husable, hdoes⟩) hcan fun q m hm => absurd hm (htook q m), ?_⟩
      cases c <;> trivial
    rw [wp_mqi] at h₁
    have h₂ := ((h₁ _).1 () (hok _ .nop (by simp) rfl rfl trivial (by simp))).2
    rw [wp_mqi] at h₂
    have h₃ := ((h₂ _).1 () (hok _ (.gave (replyQueue oneRequest) (replyMsg oneRequest)) (by simp) rfl rfl trivial (by simp))).2
    rw [wp_mqi] at h₃
    have h₄ := ((h₃ _).1 () (hok _ .nop (by simp) rfl rfl trivial (by simp))).2
    rw [wp_mqi] at h₄
    exact ((h₄ _).1 () (hok _ (.land true) (by simp) rfl rfl trivial (by simp))).1 ⟨_, List.mem_singleton.mpr rfl, rfl⟩
  obtain ⟨y, hy, hlog⟩ := Prog.reach_of_not_wp hno
  exact ⟨y, hy, by_contra hlog, (serve_settled _ _ _ () 1 rfl hy).1⟩

/-! ### A request that is lost -/

/-- `MQRC_UNKNOWN_OBJECT_NAME`. -/
def rcUnknownObjectName : Reason := 2085

/-- `MQRC_CALL_IN_PROGRESS`. -/
def rcCallInProgress : Reason := 2219

section

variable {pack deadq args i} {b : Broker ι QueueName Msg}

/-- The reply queue cannot be opened, the backout fails, and the disconnect
commits the get alone. -/
theorem backout_failure_consumes {req : Msg} {id : Bytes} (hid : req.md.msgId = some id)
    (hnamed : mqchar req.md.replyToQ ≠ []) (hreq : req ∈ b.avail args.queue) :
    ∃ y, Prog.Reach (brokerEnv deadq i) (serve pack args 1, b) y ∧
      ∃ u ∈ (y.2.conn i).log, u = ⟨[(args.queue, req)], []⟩ := by
  have hno : ¬ (serve pack args 1).wp (brokerEnv deadq i) (fun b => ¬ ∃ u ∈ (b.conn i).log, u = ⟨[(args.queue, req)], []⟩)
      (fun _ _ => True) (fun _ _ => True) b := by
    intro hp
    have h₁ := wp_taken hid hreq
      (fun _ _ _ _ (h : brokerEnv deadq i _ _ _ _) (_ : BacksOut pack deadq args i _ _ _ _) => h) hp
    simp only [serveOne, hnamed, if_false, reply, Prog.wp_bind] at h₁
    rw [wp_mqi] at h₁
    have hnop : ∀ {c : Call QueueName Msg Bytes} {b : Broker ι QueueName Msg} (r : Reason),
        brokerEnv deadq i b (.mqi c) (.error r) (b.apply i .nop) := fun r =>
      brokerEnv_mqi ⟨.inl rfl, by simp⟩ trivial (by simp)
    have h₂ := ((h₁ _).2.1 rcUnknownObjectName (hnop _)).2
    rw [backOut, wp_exceptMqi, wp_mqi] at h₂
    have h₃ := ((h₂ _).2.1 rcCallInProgress (hnop _)).2
    simp only [stderr, Prog.wp_bind] at h₃
    have h₄ := (h₃ (some ()) _ rfl).2
    simp only [wp_orInterrupt, Prog.wp_ret] at h₄
    rw [wp_mqi] at h₄
    have husable : ∀ b : Broker ι QueueName Msg, (((((b.apply i (.roll true)).apply i (.took args.queue req)).apply i
        .nop).apply i .nop).conn i).usable = true := fun b => by
      simp only [conn_apply]
      rfl
    refine ((h₄ _).1 () (brokerEnv_mqi (e := .land false) (.inl ⟨.inl (husable b), rfl⟩) trivial (by simp))).1
      ⟨_, ?_, rfl⟩
    simp only [conn_apply]
    exact List.mem_append_right _ (List.mem_singleton.mpr rfl)
  obtain ⟨y, hy, hlog⟩ := Prog.reach_of_not_wp hno
  exact ⟨y, hy, by_contra hlog⟩

end

/-- Whatever the header's bytes: it is committed without an answer. -/
theorem backout_failure_loses : ∃ y,
    Prog.Reach (brokerEnv (encode "DLQ".toList) ()) (serve (fun _ => []) ⟨"SVCQM".toList, "SVC.REQUEST".toList⟩ 1, oneQueue) y ∧
      ¬ ∀ u ∈ (y.2.conn ()).log, Settled (fun _ => []) (encode "DLQ".toList) ⟨"SVCQM".toList, "SVC.REQUEST".toList⟩ u := by
  have hnamed : mqchar oneRequest.md.replyToQ ≠ [] := by decide +kernel
  obtain ⟨y, hy, u, hu, rfl⟩ : ∃ y, Prog.Reach (brokerEnv (encode "DLQ".toList) ())
        (serve (fun _ => []) ⟨"SVCQM".toList, "SVC.REQUEST".toList⟩ 1, oneQueue) y ∧
      ∃ u ∈ (y.2.conn ()).log, u = ⟨[(_, oneRequest)], []⟩ :=
    backout_failure_consumes rfl hnamed (List.mem_singleton.mpr rfl)
  exact ⟨y, hy, fun hall => nomatch hall _ hu⟩

end Svc
end MqResiliency
