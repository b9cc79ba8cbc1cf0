/-
# The producer loses and re-keys nothing

The producer carries the message it has not yet recorded as SENT across every
failure, so what it puts under a seq always carries the uuid drawn for it.

`produce_law` says what then holds at every point of its run, whatever the
queue manager answers and wherever it is cut off (`Lossless`): the SENT
entries number the first uuids drawn, each of them has a durable message, and
no durable message carries another key than theirs or the pending one's. The
invariant behind it is `Producing`, and `Holds` with what is pending.
-/
import MqResiliency.Dr.Flow

namespace MqResiliency
namespace Dr
namespace Flow

open Py Mq

/-! ### Keys -/

/-- The numbered uuids: what the producer sends under each seq. -/
def keyed (uuids : List Str) : List (ℤ × Str) := uuids.mapIdx fun i u => ((i : ℤ) + 1, u)

/-- The keys recorded as sent, in order. -/
def sentKeys (l : Ledger) : List (ℤ × Str) := (l.ofEvent .sent).map fun e => (e.seq, e.uuid)

theorem keyed_concat (us : List Str) (u : Str) :
    keyed (us ++ [u]) = keyed us ++ [((us.length : ℤ) + 1, u)] := by
  simp [keyed, List.mapIdx_concat]

/-! ### The producer's law -/

/-- What may answer one side of the flow: the other side adds entries of its
own, `foreign`, to the ledger in between. -/
def sharedEnv (deadq : Bytes) (foreign : LedgerEntry → Prop) : Env World Cmd Cmd.Ans :=
  fun s c a s' => ∃ es, (∀ e ∈ es, foreign e) ∧
    clientEnv deadq { s with ledger := ⟨s.ledger.entries ++ es⟩ } c a s'

/-- **The law of the producer**, at any point of its run. -/
structure Producing (args : Args) (foreign : LedgerEntry → Prop) (s : World) : Prop where
  /-- The SENT entries are the first keys, in order; at most one is pending. -/
  numbered : ∃ pending, pending.length ≤ 1 ∧ keyed s.uuids = sentKeys s.ledger ++ pending
  /-- Each SENT key has a durable message on the request queue. -/
  landed : ∀ k ∈ sentKeys s.ledger, ∃ u ∈ s.conn.log, ∃ m, (args.reqQueue, m) ∈ u.put ∧
    IsRequest args k m
  /-- Each message put is the request of a key. -/
  keyed : ∀ u, u ∈ s.conn.log ∨ u = s.conn.uow → ∀ p ∈ u.put, p.1 = args.reqQueue ∧
    ∃ k ∈ keyed s.uuids, IsRequest args k p.2
  own : ∀ e ∈ s.ledger.entries, e.event = .sent ∨ foreign e

/-- The law, with the producer's `seq` and what is pending. -/
def Holds (args : Args) (foreign : LedgerEntry → Prop) (seq : ℤ) (pending : Option Pending)
    (s : World) : Prop :=
  Producing args foreign s ∧ seq = s.uuids.length ∧ match pending with
    | none => keyed s.uuids = sentKeys s.ledger
    | some p => keyed s.uuids = sentKeys s.ledger ++ [(p.seq, p.uuid)] ∧
        IsRequest args (p.seq, p.uuid) (requestMsg args p)

section Producer

variable {args : Args} {deadq : Bytes} {foreign : LedgerEntry → Prop} {seq : ℤ}
  {pending : Option Pending} {s s' : World}

theorem sentKeys_append_foreign (hf : ∀ e, foreign e → e.event ≠ .sent) {es : List LedgerEntry}
    (hes : ∀ e ∈ es, foreign e) (l : Ledger) : sentKeys ⟨l.entries ++ es⟩ = sentKeys l := by
  have hnil : es.filter (fun e => e.event = .sent) = [] := by
    simpa [List.filter_eq_nil_iff] using fun e he => hf e (hes e he)
  simp [sentKeys, Ledger.ofEvent, hnil]

/-- What the other side appends changes nothing here. -/
theorem Holds.appended (hf : ∀ e, foreign e → e.event ≠ .sent) {es : List LedgerEntry}
    (hes : ∀ e ∈ es, foreign e) (h : Holds args foreign seq pending s) :
    Holds args foreign seq pending { s with ledger := ⟨s.ledger.entries ++ es⟩ } := by
  obtain ⟨⟨hn, hl, hk, ho⟩, hseq, hp⟩ := h
  have hs := sentKeys_append_foreign hf hes s.ledger
  refine ⟨⟨by simpa [hs] using hn, by simpa [hs] using hl, hk, fun e he => ?_⟩, hseq, ?_⟩
  · rcases List.mem_append.mp he with he | he
    · exact ho e he
    · exact Or.inr (hes e he)
  · cases pending <;> simpa [hs] using hp

/-- A call that joins no message to the unit of work keeps the law. -/
theorem Holds.act {e : Effect Str Msg} (he : e.Passive) (h : Holds args foreign seq pending s) :
    Holds args foreign seq pending (s.act e) := by
  obtain ⟨⟨hn, hl, hk, ho⟩, hp⟩ := h
  refine ⟨⟨hn, fun k hk => ?_, fun u hu p hput => ?_, ho⟩, hp⟩
  · obtain ⟨u, hu, hm⟩ := hl k hk
    refine ⟨u, ?_, hm⟩
    cases e with
    | nop | roll => exact hu
    | land => exact List.mem_append_left _ hu
    | took | gave => exact he.elim
  · cases e with
    | nop => exact hk u hu p hput
    | roll =>
      rcases hu with hu | rfl
      · exact hk u (Or.inl hu) p hput
      · exact absurd hput List.not_mem_nil
    | land =>
      rcases hu with hu | rfl
      · rcases List.mem_append.mp hu with hu | hu
        · exact hk u (Or.inl hu) p hput
        · exact hk u (Or.inr (List.mem_singleton.mp hu)) p hput
      · exact absurd hput List.not_mem_nil
    | took | gave => exact he.elim

/-- A put of the pending message keeps the law. -/
theorem Holds.gave {p : Pending} (h : Holds args foreign seq (some p) s) :
    Holds args foreign seq (some p) (s.act (.gave args.reqQueue (requestMsg args p))) := by
  obtain ⟨⟨hn, hl, hk, ho⟩, hseq, hp⟩ := h
  refine ⟨⟨hn, hl, fun u hu q hq => ?_, ho⟩, hseq, hp⟩
  rcases hu with hu | rfl
  · exact hk u (Or.inl hu) q hq
  · rcases List.mem_append.mp hq with hq | hq
    · exact hk _ (Or.inr rfl) q hq
    · obtain rfl := List.mem_singleton.mp hq
      exact ⟨rfl, (p.seq, p.uuid), hp.1 ▸ List.mem_append_right _ List.mem_cons_self, hp.2⟩

/-! ### The producer's commands -/

/-- The pending message has a durable copy. -/
def Landed (args : Args) (foreign : LedgerEntry → Prop) (seq : ℤ) (p : Pending) (s : World) : Prop :=
  Holds args foreign seq (some p) s ∧ ∃ u ∈ s.conn.log, (args.reqQueue, requestMsg args p) ∈ u.put

section Commands

variable (hf : ∀ e, foreign e → e.event ≠ .sent)
include hf

/-- A call other than a get or a put. -/
theorem wp_call {c : Call Str Msg Bytes} (hget : ∀ q sel, c ≠ .get q sel)
    (hput : ∀ q m, c ≠ .put q m) (h : Holds args foreign seq pending s)
    {Q : c.Out Bytes → World → Prop} {E : Exn → World → Prop}
    (hok : ∀ v s', Holds args foreign seq pending s' → Q v s')
    (herr : ∀ r s', Holds args foreign seq pending s' → E (.mqi r) s') :
    (mqi c).wp (sharedEnv deadq foreign) (Producing args foreign) Q E s := by
  have hkeep : ∀ a s', sharedEnv deadq foreign s (.mqi c) a s' → Holds args foreign seq pending s' := by
    rintro a s' ⟨es, hes, e, he, rfl⟩
    exact (h.appended hf hes).act (he.passive fun _ _ => ⟨hget, hput⟩)
  rw [wp_mqi]
  exact fun s' => ⟨fun v hv => ⟨(hkeep _ _ hv).1, hok v s' (hkeep _ _ hv)⟩,
    fun r hr => ⟨(hkeep _ _ hr).1, herr r s' (hkeep _ _ hr)⟩⟩

/-- A question that only the clock, or the disk, answers. -/
theorem wp_look {c : Cmd} (hc : c = .keepGoing ∨ c = .flushDue ∨ c = .time ∨ c = .writeJsonl)
    {Φ : World → Prop}
    (hΦ : ∀ es, (∀ e ∈ es, foreign e) → Φ { s with ledger := ⟨s.ledger.entries ++ es⟩ })
    (hpend : Holds args foreign seq pending s)
    {Q : c.Ans → World → Prop} {E : Exn → World → Prop} (hQ : ∀ a s', Φ s' → Q a s') :
    (Prog.ask c).wp (sharedEnv deadq foreign) (Producing args foreign) Q E s := by
  rintro a s' ⟨es, hes, hs⟩
  have hs' : s' = { s with ledger := ⟨s.ledger.entries ++ es⟩ } := by
    rcases hc with rfl | rfl | rfl | rfl <;> exact hs
  subst hs'
  exact ⟨(hpend.appended hf hes).1, hQ a _ (hΦ es hes)⟩

theorem wp_send {p : Pending} (h : Holds args foreign seq (some p) s) {Q : Outcome → World → Prop}
    (hdone : ∀ s', Landed args foreign seq p s' → Q .done s')
    (hkeep : ∀ s', Holds args foreign seq (some p) s' → Q .rebuild s' ∧ Q .again s') :
    (send args p).wp (sharedEnv deadq foreign) (Producing args foreign) Q (fun _ _ => True) s := by
  have hfailed : ∀ r s', Holds args foreign seq (some p) s' →
      (sendFailed r).wp (sharedEnv deadq foreign) (Producing args foreign) Q (fun _ _ => True) s' := by
    intro r s' h'
    rw [sendFailed]
    split
    · rw [Prog.wp_bind, dropConnection, wp_exceptMqi]
      exact wp_call hf (by simp) (by simp) h' (fun _ s₁ h₁ => (hkeep s₁ h₁).1)
        fun _ s₁ h₁ => (hkeep s₁ h₁).1
    split
    · exact (hkeep s' h').2
    split
    · rw [Prog.wp_bind, wp_exceptMqi]
      exact wp_call hf (by simp) (by simp) h' (fun _ s₁ h₁ => (hkeep s₁ h₁).2)
        fun _ s₁ h₁ => (hkeep s₁ h₁).2
    · trivial
  rw [send, wp_exceptMqi, Prog.wp_bind, wp_mqi]
  refine fun s₁ => ⟨fun _ hok => ?_, fun r hr => ?_⟩
  · obtain ⟨es, hes, e, ⟨-, rfl⟩, rfl⟩ := hok
    have h₁ := (h.appended hf hes).gave
    refine ⟨h₁.1, ?_⟩
    rw [Prog.wp_bind, wp_mqi]
    refine fun s₂ => ⟨fun _ hok => ?_, fun r hr => ?_⟩
    · obtain ⟨es', hes', e, ⟨-, rfl⟩, rfl⟩ := hok
      have h₂ := (h₁.appended hf hes').act (e := .land true) trivial
      refine ⟨h₂.1, hdone _ ⟨h₂, _, List.mem_append_right _ (List.mem_singleton.mpr rfl), ?_⟩⟩
      exact List.mem_append_right _ (List.mem_singleton.mpr rfl)
    · obtain ⟨es', hes', e, he, rfl⟩ := hr
      have h₂ := (h₁.appended hf hes').act (he.passive (by simp))
      exact ⟨h₂.1, hfailed r _ h₂⟩
  · obtain ⟨es, hes, e, he, rfl⟩ := hr
    have h₁ := (h.appended hf hes).act (he.passive (by simp))
    exact ⟨h₁.1, hfailed r _ h₁⟩

theorem wp_keepGoing (h : Holds args foreign seq pending s) {Q : Bool → World → Prop}
    {E : Exn → World → Prop} (hQ : ∀ b s', Holds args foreign seq pending s' → Q b s') :
    keepGoing.wp (sharedEnv deadq foreign) (Producing args foreign) Q E s :=
  wp_look hf (Or.inl rfl) (fun _ hes => h.appended hf hes) h hQ

theorem wp_connectRetry : ∀ (n : ℕ) {s : World}, Holds args foreign seq pending s →
    (connectRetry n).wp (sharedEnv deadq foreign) (Producing args foreign)
      (fun _ => Holds args foreign seq pending) (fun _ _ => True) s
  | 0, _, _ => trivial
  | n + 1, s, h => by
    rw [connectRetry, Prog.wp_bind]
    refine wp_keepGoing hf h fun going s₁ h₁ => ?_
    cases going
    · exact h₁
    simp only [Bool.not_true, Bool.false_eq_true, if_false]
    rw [Prog.wp_bind, wp_exceptMqi, Prog.wp_bind]
    refine wp_call hf (by simp) (by simp) h₁ (fun _ s₂ h₂ => h₂) fun r s₂ h₂ => ?_
    by_cases hr : r ∈ connectRetryReasons
    · simp only [hr, if_true, Prog.wp_pure, Bool.false_eq_true, if_false]
      exact wp_connectRetry n h₂
    · simp only [hr, if_false, Prog.wp_throw]

theorem wp_connected (fuel : ℕ) (live : Bool) (h : Holds args foreign seq pending s) :
    (connected fuel live).wp (sharedEnv deadq foreign) (Producing args foreign)
      (fun _ => Holds args foreign seq pending) (fun _ _ => True) s := by
  rw [connected]
  split
  · exact h
  · exact wp_connectRetry hf fuel h

/-- The next key is drawn once, for the seq it is numbered with. -/
theorem wp_nextPending (h : Holds args foreign seq pending s) {Q : ℤ × Pending → World → Prop}
    (hQ : ∀ n p s', Holds args foreign n (some p) s' → Q (n, p) s') :
    (nextPending seq pending).wp (sharedEnv deadq foreign) (Producing args foreign) Q
      (fun _ _ => True) s := by
  cases pending with
  | some p => exact hQ seq p s h
  | none =>
    rw [nextPending, Prog.wp_bind, Prog.wp_ask]
    rintro u s₁ ⟨es, hes, rfl⟩
    obtain ⟨⟨-, hl, hk, ho⟩, hseq, hp⟩ := h.appended hf hes
    have hkeyed : keyed (s.uuids ++ [u.val]) =
        sentKeys ⟨s.ledger.entries ++ es⟩ ++ [(seq + 1, u.val)] := by
      rw [keyed_concat, hseq]
      exact congrArg (· ++ _) hp
    have hI : Producing args foreign
        { s with ledger := ⟨s.ledger.entries ++ es⟩, uuids := s.uuids ++ [u.val] } := by
      refine ⟨⟨_, by simp, hkeyed⟩, hl, fun v hv q hq => ?_, ho⟩
      obtain ⟨hq, k, hk', hreq⟩ := hk v hv q hq
      exact ⟨hq, k, by rw [keyed_concat]; exact List.mem_append_left _ hk', hreq⟩
    refine ⟨hI, ?_⟩
    split
    · trivial
    · rename_i p hbuild
      obtain ⟨hps, hpu, -⟩ := buildPending_ok hbuild
      refine hQ _ p _ ⟨hI, by simp [hseq], ?_, ?_⟩
      · rw [hps, hpu]
        exact hkeyed
      · rw [hps, hpu]
        exact ⟨bar_not_mem_uuid u, p, hbuild, rfl⟩

theorem wp_recordSent {p : Pending} (h : Landed args foreign seq p s) :
    (recordSent p).wp (sharedEnv deadq foreign) (Producing args foreign)
      (fun _ => Holds args foreign seq none) (fun _ _ => True) s := by
  rw [recordSent, append, Prog.wp_bind, Prog.wp_bind, Prog.wp_ask]
  rintro ts s₁ ⟨es, hes, rfl⟩
  have h₁ := h.1.appended hf hes
  refine ⟨h₁.1, ?_⟩
  rw [Prog.wp_bind, Prog.wp_ask]
  rintro _ s₂ ⟨es', hes', rfl⟩
  obtain ⟨⟨-, hl, hk, ho⟩, hseq, hp⟩ := h₁.appended hf hes'
  have hsent : sentKeys ⟨s.ledger.entries ++ es ++ es' ++ [⟨.sent, p.seq, p.uuid, ts⟩]⟩ =
      sentKeys ⟨s.ledger.entries ++ es ++ es'⟩ ++ [(p.seq, p.uuid)] := by
    simp [sentKeys, Ledger.ofEvent]
  have hkeyed : keyed s.uuids =
      sentKeys ⟨s.ledger.entries ++ es ++ es' ++ [⟨.sent, p.seq, p.uuid, ts⟩]⟩ :=
    hp.1.trans hsent.symm
  have h₂ : Holds args foreign seq none { s with ledger :=
      ⟨s.ledger.entries ++ es ++ es' ++ [⟨.sent, p.seq, p.uuid, ts⟩]⟩ } := by
    refine ⟨⟨⟨[], by simp, by simpa using hkeyed⟩, fun k hkey => ?_, hk, fun e he => ?_⟩, hseq, hkeyed⟩
    · rw [hsent] at hkey
      rcases List.mem_append.mp hkey with hkey | hkey
      · exact hl k hkey
      · obtain ⟨u, hu, hmem⟩ := h.2
        rw [List.mem_singleton.mp hkey]
        exact ⟨u, hu, _, hmem, hp.2⟩
    · rcases List.mem_append.mp he with he | he
      · exact ho e he
      · rw [List.mem_singleton.mp he]
        exact Or.inl rfl
  refine ⟨h₂.1, ?_⟩
  rw [Prog.wp_pure, Prog.wp_bind, flushDue]
  refine wp_look hf (by simp) (fun _ hes => h₂.appended hf hes) h₂ fun due s₃ h₃ => ?_
  cases due
  · exact h₃
  rw [if_pos rfl, writeJsonl, Prog.wp_bind]
  refine wp_look hf (by simp) (fun _ hes => h₃.appended hf hes) h₃ fun wrote s₄ h₄ => ?_
  cases wrote
  · trivial
  · exact h₄

theorem wp_produceLoop (fuel : ℕ) : ∀ (n : ℕ) (live : Bool) {seq : ℤ} {pending : Option Pending}
    {s : World}, Holds args foreign seq pending s →
    (produceLoop args fuel n live seq pending).wp (sharedEnv deadq foreign) (Producing args foreign)
      (fun _ s' => ∃ seq pending, Holds args foreign seq pending s') (fun _ _ => True) s
  | 0, _, _, _, _, _ => trivial
  | n + 1, live, seq, pending, s, h => by
    rw [produceLoop, Prog.wp_bind]
    refine wp_keepGoing hf h fun going s₁ h₁ => ?_
    cases going
    · exact ⟨_, _, h₁⟩
    simp only [Bool.not_true, Bool.false_eq_true, if_false]
    rw [Prog.wp_bind]
    refine Prog.wp_mono (fun up s₂ h₂ => ?_) (fun _ _ _ => trivial) _ _ (wp_connected hf fuel live h₁)
    cases up
    · exact ⟨_, _, h₂⟩
    simp only [Bool.not_true, Bool.false_eq_true, if_false]
    rw [Prog.wp_bind]
    refine wp_nextPending hf h₂ fun seq' p s₃ h₃ => ?_
    rw [Prog.wp_bind]
    refine wp_send hf h₃ (fun s₄ h₄ => ?_) fun s₄ h₄ =>
      ⟨wp_produceLoop fuel n false h₄, wp_produceLoop fuel n true h₄⟩
    rw [Prog.wp_bind]
    exact Prog.wp_mono (fun _ s₅ h₅ => wp_produceLoop fuel n true h₅) (fun _ _ _ => trivial) _ _
      (wp_recordSent hf h₄)

theorem wp_producer (fuel : ℕ) (h : Holds args foreign 0 none s) :
    (producer args fuel).wp (sharedEnv deadq foreign) (Producing args foreign)
      (fun _ _ => True) (fun _ _ => True) s := by
  rw [producer, Prog.wp_bind]
  refine Prog.wp_mono (fun live s₁ ⟨seq, pending, h₁⟩ => ?_) (fun _ _ _ => trivial) _ _
    (wp_produceLoop hf fuel fuel false h)
  cases live
  · trivial
  · rw [if_pos rfl, dropConnection, wp_exceptMqi]
    exact wp_call hf (by simp) (by simp) h₁ (fun _ _ _ => trivial) fun _ _ _ => trivial

end Commands

/-- Before the first command. -/
theorem holds_initial : Holds args foreign 0 none World.initial := by
  refine ⟨⟨⟨[], by simp, rfl⟩, by simp [World.initial, sentKeys, Ledger.ofEvent], ?_, ?_⟩, rfl, rfl⟩
  · rintro u (hu | rfl) p hp
    · exact absurd hu List.not_mem_nil
    · exact absurd hp List.not_mem_nil
  · simp [World.initial]

end Producer

/-- The SENT entries are the first keys drawn, in order, and at most one more
is pending; each SENT key has a durable message on the request queue, and each
durable message carries a SENT key or the pending one. -/
def Lossless (args : Args) (s : World) : Prop :=
  ∃ pending, pending.length ≤ 1 ∧ keyed s.uuids = sentKeys s.ledger ++ pending ∧
    (∀ k ∈ sentKeys s.ledger, ∃ u ∈ s.conn.log, ∃ m, (args.reqQueue, m) ∈ u.put ∧
      Carries args k m) ∧
    ∀ u ∈ s.conn.log, ∀ p ∈ u.put, p.1 = args.reqQueue ∧
      ∃ k ∈ sentKeys s.ledger ++ pending, Carries args k p.2

/-- What the producer's ledger gains from the consumer is not SENT. -/
def producerEnv (deadq : Bytes) : Env World Cmd Cmd.Ans := sharedEnv deadq fun e => e.event ≠ .sent

/-- **The producer neither loses nor re-keys a message**, whatever the queue
manager answers and the consumer adds to the ledger, wherever it is cut off. -/
theorem produce_law (args : Args) (deadq : Bytes) (fuel : ℕ)
    {y : Prog.Cfg World Cmd Cmd.Ans Exn Unit}
    (h : Prog.Reach (producerEnv deadq) (producer args fuel, World.initial) y) :
    Lossless args y.2 := by
  obtain ⟨⟨pending, hlen, hkeys⟩, hlanded, hkeyed, -⟩ :=
    (Prog.wp_reach h holds_initial.1 (wp_producer (fun _ he => he) fuel holds_initial)).1
  refine ⟨pending, hlen, hkeys, fun k hk => ?_, fun u hu p hp => ?_⟩
  · obtain ⟨u, hu, m, hm, hreq⟩ := hlanded k hk
    exact ⟨u, hu, m, hm, hreq.carries⟩
  · obtain ⟨hq, k, hk, hreq⟩ := hkeyed u (Or.inl hu) p hp
    exact ⟨hq, k, hkeys ▸ hk, hreq.carries⟩

def someArgs : Args := ⟨"SVC.REQUEST".toList, "APP.REPLY".toList, List.replicate 24 7, -1⟩

def someUuid : Uuid := ⟨List.replicate 32 'a', rfl, fun c hc => by
  rw [List.eq_of_mem_replicate hc]
  exact Or.inr (by decide)⟩

/-- A run that records its first message as sent. -/
theorem produce_law_first : ∃ y,
    Prog.Reach (producerEnv []) (producer someArgs 2, World.initial) y ∧
      sentKeys y.2.ledger ≠ [] ∧ Lossless someArgs y.2 := by
  have hno : ¬ (producer someArgs 2).wp (producerEnv []) (fun s => sentKeys s.ledger = [])
      (fun _ _ => True) (fun _ _ => True) World.initial := by
    intro hp
    rw [producer, Prog.wp_bind, produceLoop, Prog.wp_bind, keepGoing, Prog.wp_ask] at hp
    have h₁ := (hp true _ ⟨[], by simp, rfl⟩).2
    simp only [Bool.not_true, Bool.false_eq_true, if_false] at h₁
    rw [Prog.wp_bind, connected, if_neg (by simp), connectRetry, Prog.wp_bind, keepGoing,
      Prog.wp_ask] at h₁
    have h₂ := (h₁ true _ ⟨[], by simp, rfl⟩).2
    simp only [Bool.not_true, Bool.false_eq_true, if_false] at h₂
    rw [Prog.wp_bind, wp_exceptMqi, Prog.wp_bind, wp_mqi] at h₂
    have h₃ := ((h₂ _).1 () ⟨[], by simp, _, rfl, rfl⟩).2
    simp only [Prog.wp_pure, if_true, Bool.not_true, Bool.false_eq_true, if_false] at h₃
    rw [Prog.wp_bind, nextPending, Prog.wp_bind, Prog.wp_ask] at h₃
    have h₄ := (h₃ someUuid _ ⟨[], by simp, rfl⟩).2
    obtain ⟨p, hbuild⟩ : ∃ p, buildPending (0 + 1) someUuid.val = .ok p := ⟨_, rfl⟩
    simp only [hbuild, Prog.wp_pure, Prog.wp_bind, send, wp_exceptMqi] at h₄
    rw [wp_mqi] at h₄
    have h₅ := ((h₄ _).1 () ⟨[], by simp, _, ⟨rfl, rfl⟩, rfl⟩).2
    rw [wp_mqi] at h₅
    have h₆ := ((h₅ _).1 () ⟨[], by simp, _, ⟨rfl, rfl⟩, rfl⟩).2
    rw [recordSent, append, Prog.wp_bind, Prog.wp_bind, Prog.wp_ask] at h₆
    have h₇ := (h₆ (.fin 0) _ ⟨[], by simp, rfl⟩).2
    rw [Prog.wp_bind, Prog.wp_ask] at h₇
    exact absurd (h₇ () _ ⟨[], by simp, rfl⟩).1 (by simp [sentKeys, Ledger.ofEvent, Ledger.append])
  obtain ⟨y, hy, hsent⟩ := Prog.reach_of_not_wp hno
  exact ⟨y, hy, hsent, produce_law someArgs [] 2 hy⟩

end Flow
end Dr
end MqResiliency
