/-
# What CONFIRMED stands for

One producer, its consumer, responders and any other clients, interleaved in
any order on one queue manager, with any answers to any of their calls
(`partyEnv`). `confirmed_sound`: each CONFIRMED entry of the app's ledger goes
back to a request this run's producer put under exactly that seq and uuid, and
to a durable unit of work of a responder that took this request and put the
reply the consumer took.

Each program is proved alone: the producer (`Producing`), the consumer
(`Consuming`), a responder (`Answering`). `Parties.local_inv` carries the three
to every interleaving, and what is on the queues is traced back through them
(`Broker.AllSourced`, `OnlyRequests`).
-/
import MqResiliency.Dr.Consumed
import MqResiliency.Dr.Produced
import MqResiliency.Dr.Responder
import MqResiliency.Lib.Parties

namespace MqResiliency
namespace Dr

open Py Mq

/-! ### A responder's puts -/

namespace Responder

/-- Each put of a unit of work answers a request that it took. -/
def Answering (pack : Dlh → Bytes) (deadq : Bytes) (args : Args) (s : World) : Prop :=
  ∀ u, u ∈ s.conn.log ∨ u = s.conn.uow → ∀ p ∈ u.put, ∃ g ∈ u.got, Answers pack deadq args g p

variable {pack : Dlh → Bytes} {deadq : Bytes} {args : Args} {s s' : World}

/-- An answer keeps the CorrelId; a request that parses is replied to. -/
theorem Answers.elim {g p : Str × Msg} (h : Answers pack deadq args g p) :
    g.1 = args.inQueue ∧ p.2.md.correlId = g.2.md.correlId ∧
      ∀ body msg, splitFramed g.2.body = .ok (body, msg) → p.1 = args.outQueue ∧
        ∃ header, packHeader "pw".toList "SVC".toList "APP01".toList msg.sessionDate = .ok header ∧
          p.2 = replyMsg header body g.2.md := by
  cases h with
  | @reply req body msg header hsplit hheader =>
    refine ⟨rfl, rfl, fun body' msg' h => ?_⟩
    rw [hsplit] at h
    cases h
    exact ⟨rfl, header, hheader, rfl⟩
  | reject hexc => exact ⟨rfl, rfl, fun body msg h => absurd (hexc.symm.trans h) (by simp)⟩

theorem Answering.act {e : Effect Str Msg} (he : ∀ q m, e ≠ .gave q m)
    (h : Answering pack deadq args s) : Answering pack deadq args (s.act e) := by
  intro u hu p hp
  cases e with
  | nop => exact h u hu p hp
  | gave q m => exact absurd rfl (he q m)
  | took q m =>
    rcases hu with hu | rfl
    · exact h u (Or.inl hu) p hp
    · obtain ⟨g, hg, ha⟩ := h s.conn.uow (Or.inr rfl) p hp
      exact ⟨g, List.mem_append_left _ hg, ha⟩
  | roll =>
    rcases hu with hu | rfl
    · exact h u (Or.inl hu) p hp
    · exact absurd hp List.not_mem_nil
  | land =>
    rcases hu with hu | rfl
    · rcases List.mem_append.mp hu with hu | hu
      · exact h u (Or.inl hu) p hp
      · exact h u (Or.inr (List.mem_singleton.mp hu)) p hp
    · exact absurd hp List.not_mem_nil

theorem Answering.gave {req : Msg} {q : Str} {m : Msg} (h : Answering pack deadq args s)
    (hreq : (args.inQueue, req) ∈ s.conn.uow.got)
    (ha : Answers pack deadq args (args.inQueue, req) (q, m)) :
    Answering pack deadq args (s.act (.gave q m)) := by
  intro u hu p hp
  rcases hu with hu | rfl
  · exact h u (Or.inl hu) p hp
  · rcases List.mem_append.mp hp with hp | hp
    · exact h s.conn.uow (Or.inr rfl) p hp
    · rw [List.mem_singleton.mp hp]
      exact ⟨_, hreq, ha⟩

/-- An effect of a call that is no put, or failed, puts nothing. -/
theorem ne_gave {c : Call Str Msg Bytes} {a : c.Answer Bytes} {usable : Bool} {e : Effect Str Msg}
    (h : Allowed (·.md.correlId) deadq c a usable e) (hc : ∀ v, a = .ok v → ∀ q m, c ≠ .put q m) :
    ∀ q m, e ≠ .gave q m := by
  rintro q m rfl
  cases c with
  | get =>
    cases a with
    | ok v => exact absurd h.2.2 (by simp)
    | error r => exact h.passive (by simp)
  | put q' m' =>
    cases a with
    | ok v => exact hc v rfl q' m' rfl
    | error r => exact h.passive (by simp)
  | connect | openQ | closeQ | inquire | commit | backout | disconnect => exact h.passive (by simp)

/-- A responder puts only answers, whatever the queue manager does. -/
def answering (pack : Dlh → Bytes) (deadq : Bytes) (args : Args) : Discipline pack deadq args where
  env := clientEnv deadq
  Safe := Answering pack deadq args
  Clear := Answering pack deadq args
  Pending req s := Answering pack deadq args s ∧ (args.inQueue, req) ∈ s.conn.uow.got
  Raised _ := Answering pack deadq args
  clear_safe h := h
  pending_safe h := h.1
  raised_safe h := h
  raised_clear h _ := h
  clear_raised h := h
  quiet_clear hc hs h := by
    simpa [Answering, conn_quiet hc hs] using h
  quiet_pending hc hs h := by
    simpa [Answering, conn_quiet hc hs] using h
  get h hs := by
    obtain ⟨e, ⟨-, -, rfl⟩, rfl⟩ := hs
    exact ⟨h.act (by simp), List.mem_append_right _ (List.mem_singleton.mpr rfl)⟩
  get_failed h hs := by
    obtain ⟨e, he, rfl⟩ := hs
    exact h.act (ne_gave he (by simp))
  inquire h hs := by
    obtain ⟨e, ⟨-, hattr, rfl⟩, rfl⟩ := hs
    exact ⟨hattr, h⟩
  inquire_failed h hs := by
    obtain ⟨e, he, rfl⟩ := hs
    exact h.1.act (ne_gave he (by simp))
  openQ h hs := by
    obtain ⟨e, ⟨-, rfl⟩, rfl⟩ := hs
    exact h
  openQ_failed h hs := by
    obtain ⟨e, he, rfl⟩ := hs
    exact h.1.act (ne_gave he (by simp))
  put h ha hs := by
    obtain ⟨e, ⟨-, rfl⟩, rfl⟩ := hs
    exact h.1.gave h.2 ha
  put_failed h hs := by
    obtain ⟨e, he, rfl⟩ := hs
    exact h.1.act (ne_gave he (by simp))
  settle hc h hs := by
    obtain ⟨e, he, rfl⟩ := hs
    refine h.act (ne_gave he fun _ _ => ?_)
    rcases hc with rfl | rfl | rfl | rfl <;> simp
  backout h hs := by
    obtain ⟨e, he, rfl⟩ := hs
    exact h.act (ne_gave he (by simp))

end Responder

/-! ### The system -/

inductive Party where
  | producer
  | consumer
  | responder (n : ℕ)
  | other (n : ℕ)
deriving DecidableEq

/-- One run of the flow among other clients. -/
structure Deployment where
  flow : Flow.Args
  pack : Responder.Dlh → Bytes
  /-- The queue manager's `DEADQ`. -/
  deadq : Bytes
  qm : Str
  /-- What the queues hold before the run. -/
  start : Str → List Msg
  /-- The programs of the other clients. -/
  others : ℕ → Client Unit
  apart : flow.reqQueue ≠ flow.replyQueue
  /-- The run's CorrelId is its own. -/
  fresh : ∀ q, ∀ m ∈ start q, m.md.correlId ≠ flow.correlId

namespace Deployment

variable (D : Deployment)

/-- The responders' arguments: from the request queue to the reply queue. -/
def responderArgs : Responder.Args := ⟨D.qm, D.flow.reqQueue, D.flow.replyQueue⟩

def programs (fuel : ℕ) : Party → Client Unit
  | .producer => Flow.producer D.flow fuel
  | .consumer => Flow.consumer D.flow fuel
  | .responder _ => Responder.run D.pack D.responderArgs fuel
  | .other n => D.others n

/-- The queue manager, the entries of all the ledgers with who made each, and
the uuids each party drew. -/
structure Shared where
  broker : Broker Party Str Msg
  entries : List (Party × LedgerEntry)
  uuids : Party → List Str

/-- Before the run. -/
def initial : Shared := ⟨⟨D.start, fun _ => .initial⟩, [], fun _ => []⟩

/-- A party's own part. -/
def world (i : Party) (s : Shared) : World :=
  ⟨s.broker.conn i, ⟨(s.entries.filter (·.1 = i)).map (·.2)⟩, s.uuids i⟩

/-- The app's ledger, which the producer and the consumer share. -/
def appLedger (s : Shared) : Ledger :=
  ⟨(s.entries.filter fun e => e.1 = .producer ∨ e.1 = .consumer).map (·.2)⟩

/-- The other clients put under other CorrelIds. -/
def Asks : Party → Cmd → Prop
  | .other _, .mqi (.put _ m) => m.md.correlId ≠ D.flow.correlId
  | _, _ => True

/-- What may answer a party. -/
def partyEnv (i : Party) : Env Shared Cmd Cmd.Ans := fun s c a s' => D.Asks i c ∧
  match c, a with
  | .mqi c, a => ∃ e, Allowed (·.md.correlId) D.deadq c a (s.broker.conn i).usable e ∧
      s.broker.CanTake e ∧ s' = { s with broker := s.broker.apply i e }
  | .uuid4, u => s' = { s with uuids := Function.update s.uuids i (s.uuids i ++ [u.val]) }
  | .append e, _ => s' = { s with entries := s.entries ++ [(i, e)] }
  | _, _ => s' = s

/-- The same, as the party alone sees it. -/
def localEnv (i : Party) : Env World Cmd Cmd.Ans :=
  fun s c a s' => D.Asks i c ∧ clientEnv D.deadq s c a s'

/-! ### What each party keeps -/

/-- Every message another client puts is under another CorrelId. -/
def Outside (s : World) : Prop :=
  ∀ u, u ∈ s.conn.log ∨ u = s.conn.uow → ∀ p ∈ u.put, p.2.md.correlId ≠ D.flow.correlId

def LocalInv : Party → World → Prop
  | .producer => Flow.Producing D.flow fun _ => False
  | .consumer => Flow.Consuming D.flow
  | .responder _ => Responder.Answering D.pack D.deadq D.responderArgs
  | .other _ => D.Outside

variable {D}

theorem world_apply_self (i : Party) (s : Shared) (e : Effect Str Msg) :
    world i { s with broker := s.broker.apply i e } = (world i s).act e := by
  simp [world, World.act, Broker.apply]

theorem world_apply_of_ne {i j : Party} (hj : j ≠ i) (s : Shared) (e : Effect Str Msg) :
    world j { s with broker := s.broker.apply i e } = world j s := by
  simp [world, Broker.apply, Function.update_of_ne hj]

/-- A party's commands are its own affair. -/
theorem partyEnv_private : Parties.Private D.partyEnv world D.localEnv := by
  rintro i s c a s' ⟨hasks, hs⟩
  cases c with
  | mqi c =>
    obtain ⟨e, he, -, rfl⟩ := hs
    refine ⟨⟨hasks, e, he, world_apply_self i s e⟩, fun j hj => world_apply_of_ne hj s e⟩
  | uuid4 =>
    obtain rfl : s' = _ := hs
    refine ⟨⟨hasks, ?_⟩, fun j hj => ?_⟩
    · simp [clientEnv, world]
    · simp [world, Function.update_of_ne hj]
  | append e =>
    obtain rfl : s' = _ := hs
    refine ⟨⟨hasks, ?_⟩, fun j hj => ?_⟩
    · simp [clientEnv, world, Ledger.append]
    · have hne : ¬ i = j := fun h => hj h.symm
      simp [world, hne]
  | keepGoing | flushDue | time | gmtime | writeJsonl =>
    obtain rfl : s' = s := hs
    exact ⟨⟨hasks, rfl⟩, fun _ _ => rfl⟩

theorem outside_keeps {n : ℕ} {s s' : World} {c : Cmd} {a : c.Ans} (h : D.Outside s)
    (hs : D.localEnv (.other n) s c a s') : D.Outside s' := by
  obtain ⟨hasks, hs⟩ := hs
  by_cases hc : ∃ x, c = .mqi x
  · obtain ⟨x, rfl⟩ := hc
    obtain ⟨e, he, rfl⟩ := hs
    intro u hu p hp
    cases e with
    | nop => exact h u hu p hp
    | took q m =>
      rcases hu with hu | rfl
      · exact h u (Or.inl hu) p hp
      · exact h s.conn.uow (Or.inr rfl) p hp
    | gave q m =>
      rcases hu with hu | rfl
      · exact h u (Or.inl hu) p hp
      · rcases List.mem_append.mp hp with hp | hp
        · exact h s.conn.uow (Or.inr rfl) p hp
        · rw [List.mem_singleton.mp hp]
          cases x with
          | put q' m' =>
            cases a with
            | ok v =>
              obtain ⟨-, heq⟩ := he
              cases heq
              exact hasks
            | error r => exact absurd rfl (Responder.ne_gave he (by simp) q m)
          | get | connect | openQ | closeQ | inquire | commit | backout | disconnect =>
            exact absurd rfl (Responder.ne_gave he (by simp) q m)
    | roll =>
      rcases hu with hu | rfl
      · exact h u (Or.inl hu) p hp
      · exact absurd hp List.not_mem_nil
    | land =>
      rcases hu with hu | rfl
      · rcases List.mem_append.mp hu with hu | hu
        · exact h u (Or.inl hu) p hp
        · exact h u (Or.inr (List.mem_singleton.mp hu)) p hp
      · exact absurd hp List.not_mem_nil
  · simpa [Outside, conn_quiet (fun x hx => hc ⟨x, hx⟩) hs] using h

/-- Each party's program keeps its invariant. -/
theorem wp_programs (fuel : ℕ) (i : Party) (s : World) (hs : s = World.initial) :
    D.LocalInv i s ∧ (D.programs fuel i).wp (D.localEnv i) (D.LocalInv i) (fun _ _ => True)
      (fun _ _ => True) s := by
  subst hs
  cases i with
  | producer =>
    have h0 : Flow.Holds D.flow (fun _ => False) 0 none World.initial := Flow.holds_initial
    have hsub : ∀ s c a s', D.localEnv .producer s c a s' →
        Flow.sharedEnv D.deadq (fun _ => False) s c a s' :=
      fun s c a s' hs => ⟨[], by simp, by simpa using hs.2⟩
    exact ⟨h0.1, Prog.wp_of_sub hsub _ _ (Flow.wp_producer (fun _ h => h.elim) fuel h0)⟩
  | consumer =>
    have h0 : Flow.Consuming D.flow World.initial := by
      refine ⟨?_, ?_, by simp [World.initial]⟩ <;>
      · rintro u (hu | rfl)
        · exact absurd hu List.not_mem_nil
        · simp [World.initial, Conn.initial, Uow.empty]
    exact ⟨h0, Prog.wp_of_sub (fun _ _ _ _ hs => hs.2) _ _ (Flow.wp_consumer fuel h0)⟩
  | responder n =>
    have h0 : Responder.Answering D.pack D.deadq D.responderArgs World.initial := by
      rintro u (hu | rfl) p hp
      · exact absurd hu List.not_mem_nil
      · exact absurd hp List.not_mem_nil
    exact ⟨h0, Prog.wp_of_sub (fun _ _ _ _ hs => hs.2) _ _
      ((Responder.answering D.pack D.deadq D.responderArgs).wp_run fuel h0)⟩
  | other n =>
    have h0 : D.Outside World.initial := by
      rintro u (hu | rfl) p hp
      · exact absurd hu List.not_mem_nil
      · exact absurd hp List.not_mem_nil
    exact ⟨h0, Prog.wp_of_inv (fun _ _ _ _ h hs => outside_keeps h hs) _ _ h0⟩

/-- What each party keeps holds at every point of every interleaving. -/
theorem localInv_reach {fuel : ℕ} {y : Parties.Cfg Party Shared Cmd Cmd.Ans Exn}
    (h : Parties.Reach D.partyEnv (D.programs fuel, D.initial) y) (i : Party) :
    D.LocalInv i (world i y.2) := by
  have h0 (i : Party) := wp_programs (D := D) fuel i (world i D.initial) rfl
  exact (Parties.local_inv (Q := fun _ _ _ => True) (E := fun _ _ _ => True) partyEnv_private h
    (fun i => (h0 i).1) (fun i => (h0 i).2) i).1

/-! ### Where requests and replies come from -/

/-- On the request queue, a message under the run's CorrelId is a request. -/
def OnlyRequests (D : Deployment) (q : Str) (m : Msg) : Prop :=
  q = D.flow.reqQueue → m.md.correlId = D.flow.correlId → ∃ k, Flow.IsRequest D.flow k m

/-- A unit of work of any party puts requests only where it took them. -/
theorem inherits {i : Party} {s : World} (h : D.LocalInv i s) {u : Uow Str Msg}
    (hu : u ∈ s.conn.log ∨ u = s.conn.uow) : Broker.Inherits D.OnlyRequests u := by
  rintro hgot ⟨q, m⟩ hp hq hm
  cases i with
  | producer =>
    obtain ⟨-, k, -, hreq⟩ := h.keyed u hu _ hp
    exact ⟨k, hreq⟩
  | consumer =>
    rw [h.puts u hu] at hp
    exact absurd hp List.not_mem_nil
  | other n => exact absurd hm (h u hu _ hp)
  | responder n =>
    -- what it answers was a request, so this is a reply, on the other queue
    obtain ⟨g, hg, ha⟩ := h u hu _ hp
    obtain ⟨hin, hcorrel, hreply⟩ := ha.elim
    obtain ⟨k, hreq⟩ := hgot g hg hin (hcorrel.symm.trans hm)
    obtain ⟨payload, body, -, hsplit⟩ := Flow.splitFramed_request hreq
    exact absurd (hq.symm.trans (hreply _ _ hsplit).1) D.apart

theorem onlyRequests_reach {fuel : ℕ} {y : Parties.Cfg Party Shared Cmd Cmd.Ans Exn}
    (h : Parties.Reach D.partyEnv (D.programs fuel, D.initial) y) :
    Broker.AllOk D.OnlyRequests y.2.broker ∧ Broker.AllSourced D.start y.2.broker := by
  refine Parties.inv_reach (K := fun s => ∀ i, D.LocalInv i (world i s))
    (J := fun s => Broker.AllOk D.OnlyRequests s.broker ∧ Broker.AllSourced D.start s.broker)
    (fun z hz => localInv_reach hz) ?_ h ?_
  · rintro i s c a s' hlocal ⟨hok, hsrc⟩ ⟨-, hs⟩
    cases c with
    | mqi c =>
      obtain ⟨e, -, htake, rfl⟩ := hs
      exact ⟨hok.apply i htake fun _ _ => inherits (hlocal i) (Or.inr rfl), hsrc.apply i htake⟩
    | uuid4 | append | keepGoing | flushDue | time | gmtime | writeJsonl =>
      obtain rfl : s' = _ := hs
      exact ⟨hok, hsrc⟩
  · refine ⟨⟨fun q m hm _ hc => absurd hc (D.fresh q m hm), ?_, ?_⟩, fun q m hm => Or.inl hm, ?_, ?_⟩ <;>
    · simp [initial, Conn.initial, Uow.empty]

/-- The entry `e` goes back to a request of this run's producer, under its seq
and uuid, that a responder's durable unit of work took and answered with a
reply the consumer durably took. -/
def Confirmed (D : Deployment) (s : Shared) (e : LedgerEntry) : Prop :=
  ∃ req reply, Flow.Carries D.flow (e.seq, e.uuid) req ∧
    (∃ u ∈ (s.broker.conn .producer).log, (D.flow.reqQueue, req) ∈ u.put) ∧
    (∃ n, ∃ u ∈ (s.broker.conn (.responder n)).log,
      (D.flow.reqQueue, req) ∈ u.got ∧ (D.flow.replyQueue, reply) ∈ u.put) ∧
    ∃ u ∈ (s.broker.conn .consumer).log, (D.flow.replyQueue, reply) ∈ u.got

/-- A message under the run's CorrelId comes from the producer, or from a
responder that took a request. -/
theorem sourced_cases {s : Shared} (hlocal : ∀ i, D.LocalInv i (world i s))
    (hok : Broker.AllOk D.OnlyRequests s.broker) {q : Str} {m : Msg}
    (hm : m.md.correlId = D.flow.correlId) (h : Broker.Sourced D.start s.broker q m) :
    (q = D.flow.reqQueue ∧ ∃ u ∈ (s.broker.conn .producer).log, (q, m) ∈ u.put) ∨
      (q = D.flow.replyQueue ∧ ∃ n, ∃ u ∈ (s.broker.conn (.responder n)).log, (q, m) ∈ u.put ∧
        ∃ req, (D.flow.reqQueue, req) ∈ u.got ∧ ∃ k, Flow.IsRequest D.flow k req ∧
          Responder.Answers D.pack D.deadq D.responderArgs (D.flow.reqQueue, req) (q, m)) := by
  rcases h with h | ⟨i, u, hu, hp⟩
  · exact absurd hm (D.fresh q m h)
  have hi := hlocal i
  cases i with
  | producer => exact Or.inl ⟨(hi.keyed u (Or.inl hu) _ hp).1, u, hu, hp⟩
  | consumer =>
    rw [hi.puts u (Or.inl hu)] at hp
    exact absurd hp List.not_mem_nil
  | other n => exact absurd hm (hi u (Or.inl hu) _ hp)
  | responder n =>
    obtain ⟨⟨gq, req⟩, hg, ha⟩ := hi u (Or.inl hu) _ hp
    obtain ⟨hin, hcorrel, hreply⟩ := ha.elim
    obtain rfl : gq = D.flow.reqQueue := hin
    obtain ⟨k, hreq⟩ := hok.taken _ u hu _ _ hg rfl (hcorrel.symm.trans hm)
    obtain ⟨payload, body, -, hsplit⟩ := Flow.splitFramed_request hreq
    exact Or.inr ⟨(hreply _ _ hsplit).1, n, u, hu, hp, req, hg, k, hreq, ha⟩

/-- The reply to a request carries the request's key. -/
theorem key_of_reply {k : ℤ × Str} {req reply : Msg} {q : Str} (hreq : Flow.IsRequest D.flow k req)
    (ha : Responder.Answers D.pack D.deadq D.responderArgs (D.flow.reqQueue, req) (q, reply))
    {body : Bytes} {msg : WireMessage} (h : splitFramed reply.body = .ok (body, msg)) :
    (msg.seq, msg.uuid) = k := by
  obtain ⟨payload, body', hbody, hsplit⟩ := Flow.splitFramed_request hreq
  obtain ⟨-, header, hheader, hreply⟩ := ha.elim.2.2 _ _ hsplit
  have hpack : packHeader "pw".toList "SVC".toList "APP01".toList Flow.sessionDate =
      .ok "pw      SVC     APP01   20260608".toList := by decide
  obtain rfl : "pw      SVC     APP01   20260608".toList = header :=
    Except.ok.inj (hpack.symm.trans hheader)
  have hframed : splitFramed (encode "pw      SVC     APP01   20260608".toList ++ body') =
      .ok (body', ⟨k.1, k.2, Flow.sessionDate, payload⟩) :=
    splitFramed_append (by decide) hreq.1 (by decide) hbody
  obtain rfl : reply = _ := hreply
  obtain ⟨rfl, rfl⟩ := Prod.mk.inj (Except.ok.inj (hframed.symm.trans h))
  rfl

/-- **CONFIRMED is sound end to end**, in every interleaving, at every point;
and the consumer durably removes only its own run's replies. -/
theorem confirmed_sound (D : Deployment) (fuel : ℕ) {y : Parties.Cfg Party Shared Cmd Cmd.Ans Exn}
    (h : Parties.Reach D.partyEnv (D.programs fuel, D.initial) y) :
    (∀ e ∈ (appLedger y.2).entries, e.event = .confirmed → D.Confirmed y.2 e) ∧
      ∀ u ∈ (y.2.broker.conn .consumer).log, ∀ g ∈ u.got, g.2.md.correlId = D.flow.correlId := by
  have hlocal := localInv_reach h
  obtain ⟨hok, hsrc⟩ := onlyRequests_reach h
  have hcons : Flow.Consuming D.flow (world .consumer y.2) := hlocal .consumer
  have hprod : Flow.Producing D.flow (fun _ => False) (world .producer y.2) := hlocal .producer
  refine ⟨fun e he hconf => ?_, fun u hu g hg => (hcons.gets u (Or.inl hu) g hg).2⟩
  obtain ⟨⟨i, e'⟩, hmem, rfl⟩ := List.mem_map.mp he
  obtain ⟨hentry, hi⟩ := List.mem_filter.mp hmem
  have hown : ∀ j, i = j → e' ∈ (world j y.2).ledger.entries := by
    rintro j rfl
    exact List.mem_map.mpr ⟨(i, e'), List.mem_filter.mpr ⟨hentry, by simp⟩, rfl⟩
  rcases (by simpa using hi : i = .producer ∨ i = .consumer) with hi | hi
  · rcases hprod.own e' (hown _ hi) with hsent | hno
    · exact absurd (hconf.symm.trans hsent) (by simp)
    · exact hno.elim
  obtain ⟨u, hu, reply, hreply, body, msg, hsplit, hseq, huuid⟩ := hcons.confirmed e' (hown _ hi)
  have hcorrel := (hcons.gets u (Or.inl hu) _ hreply).2
  rcases sourced_cases hlocal hok hcorrel (hsrc.taken _ u hu _ _ hreply) with
    ⟨hq, -⟩ | ⟨-, n, v, hv, hput, req, hgot, k, hreq, ha⟩
  · exact absurd hq.symm D.apart
  have hkey : (e'.seq, e'.uuid) = k := by
    rw [← hseq, ← huuid]
    exact key_of_reply hreq ha hsplit
  refine ⟨req, reply, hkey ▸ hreq.carries, ?_, ⟨n, v, hv, hgot, hput⟩, u, hu, hreply⟩
  rcases sourced_cases hlocal hok hreq.carries.1 (hsrc.taken _ v hv _ _ hgot) with
    ⟨-, hprod⟩ | ⟨hq, -⟩
  · exact hprod
  · exact absurd hq D.apart

/-! ### A confirmed message -/

/-- A producer, a consumer and responders on empty queues, and nobody else. -/
def alone : Deployment where
  flow := Flow.someArgs
  pack _ := []
  deadq := []
  qm := "PCMKAPP".toList
  start _ := []
  others _ := pure ()
  apart := by decide
  fresh _ _ hm := absurd hm List.not_mem_nil

/-- `i`'s call has the effect `e`. -/
def Shared.act (s : Shared) (i : Party) (e : Effect Str Msg) : Shared :=
  { s with broker := s.broker.apply i e }

/-- The first request is put and committed. -/
def produced (req : Msg) : Shared :=
  ({ (alone.initial.act .producer (.roll true)) with
      uuids := Function.update (fun _ => []) .producer [Flow.someUuid.val] }.act .producer
    (.gave alone.flow.reqQueue req)).act .producer (.land true)

theorem produced_reach {p : Flow.Pending} (hp : Flow.buildPending 1 Flow.someUuid.val = .ok p) :
    ∃ y, Prog.Reach (alone.partyEnv .producer) (alone.programs 2 .producer, alone.initial) y ∧
      y.2 = produced (Flow.requestMsg Flow.someArgs p) := by
  have hno : ¬ (alone.programs 2 .producer).wp (alone.partyEnv .producer)
      (fun s => s ≠ produced (Flow.requestMsg Flow.someArgs p)) (fun _ _ => True) (fun _ _ => True)
      alone.initial := by
    intro hw
    rw [programs, Flow.producer, Prog.wp_bind, Flow.produceLoop, Prog.wp_bind, keepGoing,
      Prog.wp_ask] at hw
    have h₁ := (hw true _ ⟨trivial, rfl⟩).2
    simp only [Bool.not_true, Bool.false_eq_true, if_false] at h₁
    rw [Prog.wp_bind, Flow.connected, if_neg (by simp), connectRetry, Prog.wp_bind, keepGoing,
      Prog.wp_ask] at h₁
    have h₂ := (h₁ true _ ⟨trivial, rfl⟩).2
    simp only [Bool.not_true, Bool.false_eq_true, if_false] at h₂
    rw [Prog.wp_bind, wp_exceptMqi, Prog.wp_bind, wp_mqi] at h₂
    have h₃ := ((h₂ _).1 () ⟨trivial, _, rfl, trivial, rfl⟩).2
    simp only [Prog.wp_pure, if_true, Bool.not_true, Bool.false_eq_true, if_false] at h₃
    rw [Prog.wp_bind, Flow.nextPending, Prog.wp_bind, Prog.wp_ask] at h₃
    have h₄ := (h₃ Flow.someUuid _ ⟨trivial, rfl⟩).2
    simp only [zero_add, hp, Prog.wp_pure, Prog.wp_bind, Flow.send, wp_exceptMqi] at h₄
    rw [wp_mqi] at h₄
    have h₅ := ((h₄ _).1 () ⟨trivial, _, ⟨rfl, rfl⟩, trivial, rfl⟩).2
    rw [wp_mqi] at h₅
    exact ((h₅ _).1 () ⟨trivial, _, ⟨rfl, rfl⟩, trivial, rfl⟩).1 rfl
  obtain ⟨y, hy, heq⟩ := Prog.reach_of_not_wp hno
  exact ⟨y, hy, not_not.mp heq⟩

/-- A responder answers it. -/
def responded (req reply : Msg) : Shared :=
  ((((produced req).act (.responder 0) (.roll true)).act (.responder 0)
    (.took alone.flow.reqQueue req)).act (.responder 0)
      (.gave alone.flow.replyQueue reply)).act (.responder 0) (.land true)

theorem mem_produced (req : Msg) :
    req ∈ ((produced req).act (.responder 0) (.roll true)).broker.avail alone.flow.reqQueue := by
  simp [produced, Shared.act, Broker.apply, Broker.availAfter, Broker.mem_onQueue]

theorem responded_reach {req : Msg} {body : Bytes} {msg : WireMessage} {header : Str}
    (hsplit : splitFramed req.body = .ok (body, msg))
    (hheader : packHeader "pw".toList "SVC".toList "APP01".toList msg.sessionDate = .ok header) :
    ∃ y, Prog.Reach (alone.partyEnv (.responder 0))
        (alone.programs 2 (.responder 0), produced req) y ∧
      y.2 = responded req (Responder.replyMsg header body req.md) := by
  have hno : ¬ (alone.programs 2 (.responder 0)).wp (alone.partyEnv (.responder 0))
      (fun s => s ≠ responded req (Responder.replyMsg header body req.md)) (fun _ _ => True)
      (fun _ _ => True) (produced req) := by
    intro hw
    rw [programs, Responder.run, Prog.wp_bind, Responder.serveConnected, Prog.wp_bind, keepGoing,
      Prog.wp_ask] at hw
    have h₁ := (hw true _ ⟨trivial, rfl⟩).2
    simp only [Bool.not_true, Bool.false_eq_true, if_false] at h₁
    rw [Prog.wp_bind, wp_attempt, connectRetry, Prog.wp_bind, keepGoing, Prog.wp_ask] at h₁
    have h₂ := (h₁ true _ ⟨trivial, rfl⟩).2
    simp only [Bool.not_true, Bool.false_eq_true, if_false] at h₂
    rw [Prog.wp_bind, wp_exceptMqi, Prog.wp_bind, wp_mqi] at h₂
    have h₃ := ((h₂ _).1 () ⟨trivial, _, rfl, trivial, rfl⟩).2
    simp only [Prog.wp_pure, if_true, Prog.wp_bind, wp_attempt] at h₃
    rw [Responder.serve, Prog.wp_bind, keepGoing, Prog.wp_ask] at h₃
    have h₄ := (h₃ true _ ⟨trivial, rfl⟩).2
    simp only [Bool.not_true, Bool.false_eq_true, if_false] at h₄
    rw [Prog.wp_bind, Responder.getRequest, wp_exceptMqi, Prog.wp_bind, wp_mqi] at h₄
    have h₅ := ((h₄ _).1 req ⟨trivial, _, ⟨rfl, by simp, rfl⟩, mem_produced req, rfl⟩).2
    simp only [Prog.wp_pure, Prog.wp_bind, Responder.serveOne, hsplit, Responder.reply, hheader,
      wp_exceptMqi] at h₅
    rw [wp_mqi] at h₅
    have h₆ := ((h₅ _).1 () ⟨trivial, _, ⟨rfl, rfl⟩, trivial, rfl⟩).2
    rw [wp_mqi] at h₆
    exact ((h₆ _).1 () ⟨trivial, _, ⟨rfl, rfl⟩, trivial, rfl⟩).1 rfl
  obtain ⟨y, hy, heq⟩ := Prog.reach_of_not_wp hno
  exact ⟨y, hy, not_not.mp heq⟩

/-- The consumer takes the reply and records it. -/
def consumed (req reply : Msg) (e : LedgerEntry) : Shared :=
  let s := (((responded req reply).act .consumer (.roll true)).act .consumer
    (.took alone.flow.replyQueue reply)).act .consumer (.land true)
  { s with entries := s.entries ++ [(.consumer, e)] }

theorem mem_responded (req reply : Msg) :
    reply ∈ ((responded req reply).act .consumer (.roll true)).broker.avail alone.flow.replyQueue := by
  simp [responded, Shared.act, Broker.apply, Broker.availAfter, Broker.mem_onQueue]

theorem consumed_reach (req : Msg) {reply : Msg} {body : Bytes} {msg : WireMessage}
    (hcorrel : reply.md.correlId = alone.flow.correlId)
    (hsplit : splitFramed reply.body = .ok (body, msg)) :
    ∃ y, Prog.Reach (alone.partyEnv .consumer) (alone.programs 2 .consumer, responded req reply) y ∧
      y.2 = consumed req reply ⟨.confirmed, msg.seq, msg.uuid, .fin 0⟩ := by
  have hno : ¬ (alone.programs 2 .consumer).wp (alone.partyEnv .consumer)
      (fun s => s ≠ consumed req reply ⟨.confirmed, msg.seq, msg.uuid, .fin 0⟩) (fun _ _ => True)
      (fun _ _ => True) (responded req reply) := by
    intro hw
    rw [programs, Flow.consumer, Prog.wp_bind, Flow.consumeLoop, Prog.wp_bind, keepGoing,
      Prog.wp_ask] at hw
    have h₁ := (hw true _ ⟨trivial, rfl⟩).2
    simp only [Bool.not_true, Bool.false_eq_true, if_false] at h₁
    rw [Prog.wp_bind, Flow.connected, if_neg (by simp), connectRetry, Prog.wp_bind, keepGoing,
      Prog.wp_ask] at h₁
    have h₂ := (h₁ true _ ⟨trivial, rfl⟩).2
    simp only [Bool.not_true, Bool.false_eq_true, if_false] at h₂
    rw [Prog.wp_bind, wp_exceptMqi, Prog.wp_bind, wp_mqi] at h₂
    have h₃ := ((h₂ _).1 () ⟨trivial, _, rfl, trivial, rfl⟩).2
    simp only [Prog.wp_pure, if_true, Bool.not_true, Bool.false_eq_true, if_false] at h₃
    rw [Prog.wp_bind, Flow.getReply, wp_exceptMqi, Prog.wp_bind, wp_mqi] at h₃
    have h₄ := ((h₃ _).1 reply ⟨trivial, _, ⟨rfl, fun k hk => by cases hk; exact hcorrel, rfl⟩,
      mem_responded req reply, rfl⟩).2
    simp only [Prog.wp_pure, Prog.wp_bind, Flow.confirm, hsplit, wp_exceptMqi] at h₄
    rw [wp_mqi] at h₄
    have h₅ := ((h₄ _).1 () ⟨trivial, _, ⟨rfl, rfl⟩, trivial, rfl⟩).2
    rw [append, Prog.wp_bind, Prog.wp_ask] at h₅
    have h₆ := (h₅ (.fin 0) _ ⟨trivial, rfl⟩).2
    rw [Prog.wp_bind, Prog.wp_ask] at h₆
    exact (h₆ () _ ⟨trivial, rfl⟩).1 rfl
  obtain ⟨y, hy, heq⟩ := Prog.reach_of_not_wp hno
  exact ⟨y, hy, not_not.mp heq⟩

/-- A run that confirms a message. -/
theorem confirmed_sound_alone : ∃ y, Parties.Reach alone.partyEnv (alone.programs 2, alone.initial) y ∧
    (∃ e ∈ (appLedger y.2).entries, e.event = .confirmed) ∧
    ∀ e ∈ (appLedger y.2).entries, e.event = .confirmed → alone.Confirmed y.2 e := by
  obtain ⟨p, hp⟩ : ∃ p, Flow.buildPending 1 Flow.someUuid.val = .ok p := ⟨_, rfl⟩
  have hreq : Flow.IsRequest Flow.someArgs (1, Flow.someUuid.val) (Flow.requestMsg Flow.someArgs p) :=
    ⟨Flow.bar_not_mem_uuid _, p, hp, rfl⟩
  obtain ⟨payload, body, hbody, hsplit⟩ := Flow.splitFramed_request hreq
  have hheader : packHeader "pw".toList "SVC".toList "APP01".toList Flow.sessionDate =
      .ok "pw      SVC     APP01   20260608".toList := by decide
  have hreply : splitFramed (Responder.replyMsg "pw      SVC     APP01   20260608".toList body
      (Flow.requestMsg Flow.someArgs p).md).body =
      .ok (body, ⟨1, Flow.someUuid.val, Flow.sessionDate, payload⟩) :=
    splitFramed_append (by decide) hreq.1 (by decide) hbody
  obtain ⟨y₁, h₁, hy₁⟩ := produced_reach hp
  obtain ⟨y₂, h₂, hy₂⟩ := responded_reach hsplit hheader
  obtain ⟨y₃, h₃, hy₃⟩ := consumed_reach (Flow.requestMsg Flow.someArgs p) rfl hreply
  have hr₁ := Parties.reach_alone Party.producer rfl h₁
  rw [hy₁] at hr₁
  have hne : Party.responder 0 ≠ .producer ∧ Party.consumer ≠ .responder 0 ∧
      Party.consumer ≠ .producer := by decide
  have hr₂ := hr₁.trans
    (Parties.reach_alone (Party.responder 0) (Function.update_of_ne hne.1 _ _) h₂)
  rw [hy₂] at hr₂
  have hr := hr₂.trans (Parties.reach_alone Party.consumer
    ((Function.update_of_ne hne.2.1 _ _).trans (Function.update_of_ne hne.2.2 _ _)) h₃)
  refine ⟨_, hr, ?_, (confirmed_sound alone 2 hr).1⟩
  rw [hy₃]
  exact ⟨_, List.mem_map.mpr ⟨_, List.mem_filter.mpr ⟨List.mem_append_right _
    (List.mem_singleton.mpr rfl), by simp⟩, rfl⟩, rfl⟩

end Deployment
end Dr
end MqResiliency
