/-
# What the consumer takes and confirms

The consumer puts nothing, durably removes only replies under its own run's
CorrelId, and records CONFIRMED only for a reply it durably took
(`Consuming`), whatever the queue manager answers.
-/
import MqResiliency.Dr.Flow

namespace MqResiliency
namespace Dr
namespace Flow

open Py Mq

variable {args : Args} {deadq : Bytes} {s s' : World}

/-- The consumer puts nothing, takes only its own run's replies, and records
only what it durably took. -/
structure Consuming (args : Args) (s : World) : Prop where
  puts : ∀ u, u ∈ s.conn.log ∨ u = s.conn.uow → u.put = []
  gets : ∀ u, u ∈ s.conn.log ∨ u = s.conn.uow → ∀ g ∈ u.got, g.1 = args.replyQueue ∧
    g.2.md.correlId = args.correlId
  confirmed : ∀ e ∈ s.ledger.entries, ∃ u ∈ s.conn.log, ∃ m, (args.replyQueue, m) ∈ u.got ∧
    ∃ body msg, splitFramed m.body = .ok (body, msg) ∧ msg.seq = e.seq ∧ msg.uuid = e.uuid

theorem Consuming.act {e : Effect Str Msg} (he : e.Passive) (h : Consuming args s) :
    Consuming args (s.act e) := by
  obtain ⟨hp, hg, hc⟩ := h
  -- the units of work after the call were there before, or are empty
  have hold : ∀ u, u ∈ (s.act e).conn.log ∨ u = (s.act e).conn.uow →
      (u ∈ s.conn.log ∨ u = s.conn.uow) ∨ u = .empty := by
    intro u hu
    cases e with
    | nop => exact Or.inl hu
    | roll => exact hu.imp Or.inl id
    | land =>
      refine hu.imp (fun hu => ?_) id
      exact (List.mem_append.mp hu).imp id List.mem_singleton.mp
    | took | gave => exact he.elim
  refine ⟨fun u hu => ?_, fun u hu => ?_, fun en hen => ?_⟩
  · rcases hold u hu with hu | rfl
    · exact hp u hu
    · rfl
  · rcases hold u hu with hu | rfl
    · exact hg u hu
    · exact fun g hg => absurd hg List.not_mem_nil
  · obtain ⟨u, hu, hm⟩ := hc en hen
    exact ⟨u, Broker.log_apply s.conn e hu, hm⟩

theorem Consuming.took {m : Msg} (h : Consuming args s) (hm : m.md.correlId = args.correlId) :
    Consuming args (s.act (.took args.replyQueue m)) := by
  obtain ⟨hp, hg, hc⟩ := h
  refine ⟨fun u hu => ?_, fun u hu g hgot => ?_, hc⟩
  · rcases hu with hu | rfl
    · exact hp u (Or.inl hu)
    · exact hp s.conn.uow (Or.inr rfl)
  · rcases hu with hu | rfl
    · exact hg u (Or.inl hu) g hgot
    · rcases List.mem_append.mp hgot with hgot | hgot
      · exact hg s.conn.uow (Or.inr rfl) g hgot
      · rw [List.mem_singleton.mp hgot]
        exact ⟨rfl, hm⟩

theorem wp_consumer_call {c : Call Str Msg Bytes} (hget : ∀ q sel, c ≠ .get q sel)
    (hput : ∀ q m, c ≠ .put q m) (h : Consuming args s) {Q : c.Out Bytes → World → Prop}
    {E : Exn → World → Prop} (hok : ∀ v s', Consuming args s' → Q v s')
    (herr : ∀ r s', Consuming args s' → E (.mqi r) s') :
    (mqi c).wp (clientEnv deadq) (Consuming args) Q E s := by
  have hkeep : ∀ a s', clientEnv deadq s (.mqi c) a s' → Consuming args s' := by
    rintro a s' ⟨e, he, rfl⟩
    exact h.act (he.passive fun _ _ => ⟨hget, hput⟩)
  rw [wp_mqi]
  exact fun s' => ⟨fun v hv => ⟨hkeep _ _ hv, hok v s' (hkeep _ _ hv)⟩,
    fun r hr => ⟨hkeep _ _ hr, herr r s' (hkeep _ _ hr)⟩⟩

theorem wp_consumer_keepGoing (h : Consuming args s) {Q : Bool → World → Prop}
    {E : Exn → World → Prop} (hQ : ∀ b, Q b s) :
    keepGoing.wp (clientEnv deadq) (Consuming args) Q E s := by
  rintro b s' rfl
  exact ⟨h, hQ b⟩

theorem wp_takeFailed (r : Reason) (h : Consuming args s) :
    (takeFailed r).wp (clientEnv deadq) (Consuming args) (fun o s' => o ≠ .done ∧ Consuming args s')
      (fun _ _ => True) s := by
  rw [takeFailed]
  split
  · rw [Prog.wp_bind, dropConnection, wp_exceptMqi]
    exact wp_consumer_call (by simp) (by simp) h (fun _ _ h' => ⟨by simp, h'⟩)
      fun _ _ h' => ⟨by simp, h'⟩
  split
  · exact ⟨by simp, h⟩
  · trivial

theorem wp_consumer_connected (live : Bool) : ∀ (n : ℕ) {s : World}, Consuming args s →
    (connected n live).wp (clientEnv deadq) (Consuming args) (fun _ => Consuming args)
      (fun _ _ => True) s := by
  have hretry : ∀ (n : ℕ) {s : World}, Consuming args s →
      (connectRetry n).wp (clientEnv deadq) (Consuming args) (fun _ => Consuming args)
        (fun _ _ => True) s := by
    intro n
    induction n with
    | zero => exact fun _ => trivial
    | succ n ih =>
      intro s h
      rw [connectRetry, Prog.wp_bind]
      refine wp_consumer_keepGoing h fun going => ?_
      cases going
      · exact h
      simp only [Bool.not_true, Bool.false_eq_true, if_false]
      rw [Prog.wp_bind, wp_exceptMqi, Prog.wp_bind]
      refine wp_consumer_call (by simp) (by simp) h (fun _ _ h' => h') fun r s₁ h₁ => ?_
      by_cases hr : r ∈ connectRetryReasons
      · simp only [hr, if_true, Prog.wp_pure, Bool.false_eq_true, if_false]
        exact ih h₁
      · simp only [hr, if_false, Prog.wp_throw]
  intro n s h
  rw [connected]
  split
  · exact h
  · exact hretry n h

/-- A reply that is taken is in the open unit of work. -/
theorem wp_getReply (h : Consuming args s) :
    (getReply args).wp (clientEnv deadq) (Consuming args)
      (fun o s' => Consuming args s' ∧ ∀ m, o = .ok m → (args.replyQueue, m) ∈ s'.conn.uow.got)
      (fun _ _ => True) s := by
  rw [getReply, wp_exceptMqi, Prog.wp_bind, wp_mqi]
  refine fun s' => ⟨fun m hm => ?_, fun r hr => ?_⟩
  · obtain ⟨e, ⟨-, hsel, rfl⟩, rfl⟩ := hm
    have h' := h.took (hsel _ rfl)
    refine ⟨h', h', fun m' hm' => ?_⟩
    cases hm'
    exact List.mem_append_right _ (List.mem_singleton.mpr rfl)
  · obtain ⟨e, he, rfl⟩ := hr
    have h' := h.act (he.passive (by simp))
    refine ⟨h', ?_⟩
    by_cases hno : r = rcNoMsgAvailable
    · simp only [hno, if_true]
      exact ⟨h', fun m hm => by cases hm⟩
    · simp only [hno, if_false]
      rw [Prog.wp_bind]
      exact Prog.wp_mono (fun o s₁ h₁ => ⟨h₁.2, fun m hm => by cases hm⟩) (fun _ _ _ => trivial) _ _
        (wp_takeFailed r h')

/-- CONFIRMED is recorded once the reply's removal is durable. -/
theorem wp_confirm {m : Msg} (h : Consuming args s) (hm : (args.replyQueue, m) ∈ s.conn.uow.got) :
    (confirm m).wp (clientEnv deadq) (Consuming args) (fun _ => Consuming args)
      (fun _ _ => True) s := by
  rw [confirm]
  split
  · rw [Prog.wp_bind]
    exact wp_consumer_call (by simp) (by simp) h (fun _ _ _ => trivial) fun _ _ _ => trivial
  · rename_i body msg hsplit
    rw [Prog.wp_bind, wp_exceptMqi, Prog.wp_bind, wp_mqi]
    refine fun s₁ => ⟨fun v hv => ?_, fun r hr => ?_⟩
    · obtain ⟨e, ⟨-, rfl⟩, rfl⟩ := hv
      have h₁ := h.act (e := .land true) trivial
      refine ⟨h₁, ?_⟩
      rw [Prog.wp_pure, append, Prog.wp_bind, Prog.wp_bind, Prog.wp_ask]
      rintro ts s₂ rfl
      refine ⟨h₁, ?_⟩
      rw [Prog.wp_bind, Prog.wp_ask]
      rintro _ s₃ rfl
      refine ⟨⟨h₁.puts, h₁.gets, fun e he => ?_⟩, ⟨h₁.puts, h₁.gets, fun e he => ?_⟩⟩ <;>
      · rcases List.mem_append.mp he with he | he
        · exact h₁.confirmed e he
        · rw [List.mem_singleton.mp he]
          exact ⟨_, List.mem_append_right _ (List.mem_singleton.mpr rfl), m, hm, body, msg, hsplit,
            rfl, rfl⟩
    · obtain ⟨e, he, rfl⟩ := hr
      have h₁ := h.act (he.passive (by simp))
      refine ⟨h₁, Prog.wp_mono (fun o s₂ h₂ => ?_) (fun _ _ _ => trivial) _ _ (wp_takeFailed r h₁)⟩
      cases o with
      | done => exact absurd rfl h₂.1
      | rebuild | again => exact h₂.2

theorem wp_consumeLoop (fuel : ℕ) : ∀ (n : ℕ) (live : Bool) {s : World}, Consuming args s →
    (consumeLoop args fuel n live).wp (clientEnv deadq) (Consuming args) (fun _ => Consuming args)
      (fun _ _ => True) s
  | 0, _, _, _ => trivial
  | n + 1, live, s, h => by
    rw [consumeLoop, Prog.wp_bind]
    refine wp_consumer_keepGoing h fun going => ?_
    cases going
    · exact h
    simp only [Bool.not_true, Bool.false_eq_true, if_false]
    rw [Prog.wp_bind]
    refine Prog.wp_mono (fun up s₁ h₁ => ?_) (fun _ _ _ => trivial) _ _
      (wp_consumer_connected live fuel h)
    cases up
    · exact h₁
    simp only [Bool.not_true, Bool.false_eq_true, if_false]
    rw [Prog.wp_bind]
    refine Prog.wp_mono (fun o s₂ h₂ => ?_) (fun _ _ _ => trivial) _ _ (wp_getReply h₁)
    cases o with
    | error o => exact wp_consumeLoop fuel n o.live h₂.1
    | ok m =>
      rw [Prog.wp_bind]
      exact Prog.wp_mono (fun o _ h₃ => wp_consumeLoop fuel n o.live h₃) (fun _ _ _ => trivial) _ _
        (wp_confirm h₂.1 (h₂.2 m rfl))

theorem wp_consumer (fuel : ℕ) (h : Consuming args s) :
    (consumer args fuel).wp (clientEnv deadq) (Consuming args) (fun _ _ => True)
      (fun _ _ => True) s := by
  rw [consumer, Prog.wp_bind]
  refine Prog.wp_mono (fun live s₁ h₁ => ?_) (fun _ _ _ => trivial) _ _
    (wp_consumeLoop fuel fuel false h)
  cases live
  · trivial
  · rw [if_pos rfl, dropConnection, wp_exceptMqi]
    exact wp_consumer_call (by simp) (by simp) h₁ (fun _ _ _ => trivial) fun _ _ _ => trivial

end Flow
end Dr
end MqResiliency
