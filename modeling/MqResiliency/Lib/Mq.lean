/-
# MQI calls under syncpoint

What a queue manager does with the calls of one connection, as far as units
of work go. A get or a put under syncpoint joins the connection's one open
unit of work (`Uow`) or fails; a commit makes it durable, and its messages
visible, in one step; a rollback gives back what it took. `Allowed` lists the
effects each call may have with each answer:

* a call that fails with a connection-gone code, or on a dead handle, leaves
  the handle dead and the unit of work rolled back; any other failed get, put,
  open, close or inquire changes nothing (`MQRC_BACKED_OUT` and
  `MQRC_CALL_INTERRUPTED` may also have rolled the unit of work back);
* a commit that fails with `MQRC_CALL_INTERRUPTED` is in doubt: durable or
  rolled back;
* a disconnect of a usable handle commits the open unit of work.

`Conn` is what one program sees; `Broker` is the queue manager with all its
connections and queues. Messages come from nowhere else: whatever is on a
queue or was taken from one was there at the start or was put there by a
durable unit of work (`Broker.AllSourced.apply`).
-/
import Mathlib.Data.List.Basic
import Mathlib.Logic.Function.Basic

namespace MqResiliency
namespace Mq

/-! ### Reason codes -/

/-- An MQRC number. -/
abbrev Reason : Type := ℕ

def rcBackedOut : Reason := 2003
def rcConnectionBroken : Reason := 2009
def rcHconnError : Reason := 2018
def rcNoMsgAvailable : Reason := 2033
def rcQMgrNotAvailable : Reason := 2059
def rcQMgrQuiescing : Reason := 2161
def rcConnectionQuiescing : Reason := 2202
def rcCallInterrupted : Reason := 2549

/-- The connection is gone: the handle is dead, the unit of work rolled back. -/
def connectionGone : List Reason := [rcConnectionBroken, rcHconnError, rcQMgrNotAvailable]

/-- The queue manager may have rolled the unit of work back. -/
def mayRollBack : List Reason := [rcBackedOut, rcCallInterrupted]

/-! ### Calls -/

/-- An MQI call, with queues `Q`, messages `M` and correlation ids `K`. -/
inductive Call (Q M K : Type) where
  | connect
  | get (q : Q) (sel : Option K)
  | put (q : Q) (m : M)
  | openQ (q : Q)
  | closeQ
  | inquire
  | commit
  | backout
  | disconnect

variable {Q M K N : Type}

/-- What a call that succeeds returns. -/
@[reducible] def Call.Out (N : Type) : Call Q M K → Type
  | .get _ _ => M
  | .inquire => N
  | _ => Unit

/-- What a call answers: its output, or the reason it failed with. -/
abbrev Call.Answer (N : Type) (c : Call Q M K) : Type := Except Reason (c.Out N)

/-- A unit of work: what it took from which queue, and what it put where. -/
structure Uow (Q M : Type) where
  got : List (Q × M)
  put : List (Q × M)

/-- The unit of work that holds nothing. -/
def Uow.empty : Uow Q M := ⟨[], []⟩

/-- What a call does to the unit of work. `land` makes it durable and `roll`
rolls it back; both say whether the handle is usable afterwards. -/
inductive Effect (Q M : Type) where
  | nop
  | took (q : Q) (m : M)
  | gave (q : Q) (m : M)
  | land (usable : Bool)
  | roll (usable : Bool)

/-- A get, put, open, close or inquire that failed with `r`. -/
def Failed (r : Reason) (usable : Bool) (e : Effect Q M) : Prop :=
  if usable = false ∨ r ∈ connectionGone then e = .roll false
  else e = .nop ∨ (r ∈ mayRollBack ∧ e = .roll true)

/-- The effects `c` may have when it answers `a`, on a handle that is usable
or not. `correl` is a message's correlation id, `attr` what inquire reads. -/
def Allowed (correl : M → K) (attr : N) :
    (c : Call Q M K) → c.Answer N → (usable : Bool) → Effect Q M → Prop
  | .connect, .ok _, _, e => e = .roll true
  | .connect, .error _, _, e => e = .nop
  | .get q sel, .ok m, usable, e =>
    usable = true ∧ (∀ k, sel = some k → correl m = k) ∧ e = .took q m
  | .get _ _, .error r, usable, e => Failed r usable e
  | .put q m, .ok _, usable, e => usable = true ∧ e = .gave q m
  | .put _ _, .error r, usable, e => Failed r usable e
  | .openQ _, .ok _, usable, e => usable = true ∧ e = .nop
  | .openQ _, .error r, usable, e => Failed r usable e
  | .closeQ, .ok _, usable, e => usable = true ∧ e = .nop
  | .closeQ, .error r, usable, e => Failed r usable e
  | .inquire, .ok n, usable, e => usable = true ∧ n = attr ∧ e = .nop
  | .inquire, .error r, usable, e => Failed r usable e
  | .commit, .ok _, usable, e => usable = true ∧ e = .land true
  | .commit, .error r, usable, e =>
    if usable = false ∨ r ∈ connectionGone then e = .roll false
    else (r = rcBackedOut ∧ e = .roll true) ∨
      (r = rcCallInterrupted ∧ (e = .land true ∨ e = .roll true))
  | .backout, .ok _, usable, e => usable = true ∧ e = .roll true
  | .backout, .error r, usable, e =>
    if usable = false ∨ r ∈ connectionGone then e = .roll false else e = .roll true
  | .disconnect, .ok _, usable, e => if usable = false then e = .roll false else e = .land false
  | .disconnect, .error _, usable, e =>
    if usable = false then e = .roll false else e = .land false ∨ e = .roll false

theorem Failed.cases {r : Reason} {usable : Bool} {e : Effect Q M} (h : Failed r usable e) :
    e = .nop ∨ ∃ b, e = .roll b := by
  unfold Failed at h
  split at h
  · exact Or.inr ⟨false, h⟩
  · exact h.imp id fun h => ⟨true, h.2⟩

/-- No message joins the unit of work. -/
def Effect.Passive : Effect Q M → Prop
  | .took _ _ | .gave _ _ => False
  | .nop | .land _ | .roll _ => True

/-- Only a get or a put that succeeds joins a message to the unit of work. -/
theorem Allowed.passive {correl : M → K} {attr : N} {c : Call Q M K} {a : c.Answer N}
    {usable : Bool} {e : Effect Q M} (h : Allowed correl attr c a usable e)
    (hc : ∀ v, a = .ok v → (∀ q sel, c ≠ .get q sel) ∧ ∀ q m, c ≠ .put q m) : e.Passive := by
  have hfailed : ∀ r, Failed r usable e → e.Passive := by
    intro r hr
    rcases hr.cases with rfl | ⟨b, rfl⟩ <;> trivial
  cases a with
  | ok v =>
    obtain ⟨hget, hput⟩ := hc v rfl
    cases c with
    | get q sel => exact absurd rfl (hget q sel)
    | put q m => exact absurd rfl (hput q m)
    | connect =>
      obtain rfl : e = .roll true := h
      trivial
    | openQ | closeQ | inquire | commit | backout =>
      simp only [Allowed] at h
      simp [h, Effect.Passive]
    | disconnect =>
      simp only [Allowed] at h
      split at h <;> (rw [h]; trivial)
  | error r =>
    cases c with
    | get | put | openQ | closeQ | inquire => exact hfailed r h
    | connect =>
      obtain rfl : e = .nop := h
      trivial
    | commit =>
      simp only [Allowed] at h
      split at h
      · rw [h]; trivial
      · rcases h with ⟨-, rfl⟩ | ⟨-, rfl | rfl⟩ <;> trivial
    | backout =>
      simp only [Allowed] at h
      split at h <;> (rw [h]; trivial)
    | disconnect =>
      simp only [Allowed] at h
      split at h
      · rw [h]; trivial
      · rcases h with rfl | rfl <;> trivial

/-! ### One connection -/

/-- A program's connection: its handle, its open unit of work, and the units
of work it made durable, oldest first. -/
structure Conn (Q M : Type) where
  usable : Bool
  uow : Uow Q M
  log : List (Uow Q M)

namespace Conn

/-- No connection yet. -/
def initial : Conn Q M := ⟨false, .empty, []⟩

def apply (s : Conn Q M) : Effect Q M → Conn Q M
  | .nop => s
  | .took q m => { s with uow := { s.uow with got := s.uow.got ++ [(q, m)] } }
  | .gave q m => { s with uow := { s.uow with put := s.uow.put ++ [(q, m)] } }
  | .land usable => ⟨usable, .empty, s.log ++ [s.uow]⟩
  | .roll usable => ⟨usable, .empty, s.log⟩

variable (s : Conn Q M) (q : Q) (m : M) (b : Bool)

@[simp] theorem apply_nop : s.apply .nop = s := rfl
@[simp] theorem apply_took :
    s.apply (.took q m) = ⟨s.usable, ⟨s.uow.got ++ [(q, m)], s.uow.put⟩, s.log⟩ := rfl
@[simp] theorem apply_gave :
    s.apply (.gave q m) = ⟨s.usable, ⟨s.uow.got, s.uow.put ++ [(q, m)]⟩, s.log⟩ := rfl
@[simp] theorem apply_land : s.apply (.land b) = ⟨b, .empty, s.log ++ [s.uow]⟩ := rfl
@[simp] theorem apply_roll : s.apply (.roll b) = ⟨b, .empty, s.log⟩ := rfl

end Conn

/-! ### The queue manager -/

/-- A queue manager: the messages available on each queue, and the connection
of each program `i`. -/
structure Broker (ι Q M : Type) where
  avail : Q → List M
  conn : ι → Conn Q M

namespace Broker

variable {ι : Type} [DecidableEq ι] [DecidableEq Q] [DecidableEq M]

/-- The messages of `l` that are for, or from, queue `q`. -/
def onQueue (q : Q) (l : List (Q × M)) : List M := (l.filter (·.1 = q)).map (·.2)

/-- What the queues hold after `i`'s call had the effect `e`. -/
def availAfter (b : Broker ι Q M) (i : ι) : Effect Q M → Q → List M
  | .nop => b.avail
  | .took q m => Function.update b.avail q ((b.avail q).erase m)
  | .gave _ _ => b.avail
  | .land _ => fun q => b.avail q ++ onQueue q (b.conn i).uow.put
  | .roll _ => fun q => b.avail q ++ onQueue q (b.conn i).uow.got

/-- `i`'s call has the effect `e`. -/
def apply (b : Broker ι Q M) (i : ι) (e : Effect Q M) : Broker ι Q M :=
  ⟨b.availAfter i e, Function.update b.conn i ((b.conn i).apply e)⟩

/-- A get takes only what is there. -/
def CanTake (b : Broker ι Q M) : Effect Q M → Prop
  | .took q m => m ∈ b.avail q
  | _ => True

omit [DecidableEq M] in
theorem mem_onQueue {q : Q} {m : M} {l : List (Q × M)} : m ∈ onQueue q l ↔ (q, m) ∈ l := by
  simp only [onQueue, List.mem_map, List.mem_filter, decide_eq_true_eq]
  constructor
  · rintro ⟨⟨q', m'⟩, ⟨hm, rfl⟩, rfl⟩
    exact hm
  · exact fun hm => ⟨(q, m), ⟨hm, rfl⟩, rfl⟩

omit [DecidableEq Q] [DecidableEq M] in
/-- The durable units of work are never taken back. -/
theorem log_apply (c : Conn Q M) (e : Effect Q M) {u : Uow Q M} (hu : u ∈ c.log) :
    u ∈ (c.apply e).log := by
  cases e <;> simp [hu]

/-! ### What is handed on -/

/-- If what a unit of work takes is `Ok`, so is what it puts. -/
def Inherits (Ok : Q → M → Prop) (u : Uow Q M) : Prop :=
  (∀ g ∈ u.got, Ok g.1 g.2) → ∀ p ∈ u.put, Ok p.1 p.2

/-- Everything on a queue, or taken from one, is `Ok`. -/
structure AllOk (Ok : Q → M → Prop) (b : Broker ι Q M) : Prop where
  avail : ∀ q m, m ∈ b.avail q → Ok q m
  held : ∀ i q m, (q, m) ∈ (b.conn i).uow.got → Ok q m
  taken : ∀ i, ∀ u ∈ (b.conn i).log, ∀ q m, (q, m) ∈ u.got → Ok q m

/-- **Units of work that put only what their gets allow** keep everything `Ok`. -/
theorem AllOk.apply {Ok : Q → M → Prop} {b : Broker ι Q M} (h : AllOk Ok b) (i : ι)
    {e : Effect Q M} (he : b.CanTake e)
    (hin : ∀ usable, e = .land usable → Inherits Ok (b.conn i).uow) : AllOk Ok (b.apply i e) := by
  have hheld : ∀ j q m, (q, m) ∈ ((b.apply i e).conn j).uow.got → Ok q m := by
    intro j q m hm
    by_cases hj : j = i
    · subst hj
      simp only [Broker.apply, Function.update_self] at hm
      cases e with
      | took q' m' =>
        rcases List.mem_append.mp hm with hm | hm
        · exact h.held j q m hm
        · obtain ⟨rfl, rfl⟩ : q = q' ∧ m = m' := by simpa using hm
          exact h.avail _ _ he
      | land | roll => simp [Uow.empty] at hm
      | nop | gave => exact h.held j q m hm
    · simp only [Broker.apply, Function.update_of_ne hj] at hm
      exact h.held j q m hm
  refine ⟨fun q m hm => ?_, hheld, fun j u hu q m hm => ?_⟩
  · cases e with
    | nop | gave => exact h.avail q m hm
    | took q' m' =>
      refine h.avail q m ?_
      by_cases hq : q = q'
      · subst hq
        simp only [Broker.apply, availAfter, Function.update_self] at hm
        exact List.mem_of_mem_erase hm
      · simpa [Broker.apply, availAfter, Function.update_of_ne hq] using hm
    | land usable =>
      rcases List.mem_append.mp hm with hm | hm
      · exact h.avail q m hm
      · exact hin usable rfl (fun g hg => h.held i g.1 g.2 hg) (q, m) (mem_onQueue.mp hm)
    | roll usable =>
      rcases List.mem_append.mp hm with hm | hm
      · exact h.avail q m hm
      · exact h.held i q m (mem_onQueue.mp hm)
  · by_cases hj : j = i
    · subst hj
      simp only [Broker.apply, Function.update_self] at hu
      have hu' : u ∈ (b.conn j).log ∨ u = (b.conn j).uow := by
        cases e <;> simp_all
      rcases hu' with hu' | rfl
      · exact h.taken j u hu' q m hm
      · exact h.held j q m hm
    · simp only [Broker.apply, Function.update_of_ne hj] at hu
      exact h.taken j u hu q m hm

/-! ### Where messages come from -/

/-- `m` was on queue `q` at the start, or a durable unit of work put it there. -/
def Sourced (start : Q → List M) (b : Broker ι Q M) (q : Q) (m : M) : Prop :=
  m ∈ start q ∨ ∃ i, ∃ u ∈ (b.conn i).log, (q, m) ∈ u.put

/-- Everything on a queue, or taken from one, is sourced. -/
def AllSourced (start : Q → List M) (b : Broker ι Q M) : Prop := AllOk (Sourced start b) b

theorem Sourced.apply {start : Q → List M} {b : Broker ι Q M} {q : Q} {m : M} (i : ι)
    (e : Effect Q M) (h : Sourced start b q m) : Sourced start (b.apply i e) q m := by
  rcases h with h | ⟨j, u, hu, hm⟩
  · exact Or.inl h
  · refine Or.inr ⟨j, u, ?_, hm⟩
    by_cases hj : j = i
    · subst hj
      simpa [Broker.apply] using log_apply (b.conn j) e hu
    · simpa [Broker.apply, Function.update_of_ne hj] using hu

/-- **No message comes from nowhere**: a call keeps everything sourced. -/
theorem AllSourced.apply {start : Q → List M} {b : Broker ι Q M} (h : AllSourced start b) (i : ι)
    {e : Effect Q M} (he : b.CanTake e) : AllSourced start (b.apply i e) := by
  have h' : AllOk (Sourced start (b.apply i e)) b :=
    ⟨fun q m hm => (h.avail q m hm).apply i e, fun j q m hm => (h.held j q m hm).apply i e,
      fun j u hu q m hm => (h.taken j u hu q m hm).apply i e⟩
  refine h'.apply i he fun usable hland _ p hp => Or.inr ⟨i, (b.conn i).uow, ?_, hp⟩
  subst hland
  simp [Broker.apply]

end Broker
end Mq
end MqResiliency
