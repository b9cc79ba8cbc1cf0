/-
# What is seen of a run

Of the exchanges of a run some are looked at, and show as events (`see`). A
program yields what is so seen of it and how it ends (`Yields`), whatever
answers; the rules are one for each way programs are put together.

Key definition: `Prog.Yields`. Key theorem: `Prog.Yields.bind`.
-/
import MqResiliency.Lib.Trace

namespace MqResiliency
namespace Prog

variable {C : Type} {A : C → Type} {ε α β D : Type} {see : Exchange C A → List D}

/-- Against every oracle the program ends, with events and a result that are such. -/
def Yields (see : Exchange C A → List D) (p : Prog C A ε α) (P : List D → Except ε α → Prop) : Prop :=
  ∀ (o : Oracle C A) (h : History C A), ∃ es r, p.run o h = (h ++ es, some r) ∧ P (es.flatMap see) r

variable {p : Prog C A ε α} {P Q : List D → Except ε α → Prop}

theorem Yields.mono (hp : p.Yields see P) (h : ∀ ds r, P ds r → Q ds r) : p.Yields see Q := fun o hist =>
  let ⟨es, r, hrun, hP⟩ := hp o hist
  ⟨es, r, hrun, h _ r hP⟩

theorem yields_pure {a : α} (h : P [] (.ok a)) : (pure a : Prog C A ε α).Yields see P := fun o hist =>
  ⟨[], .ok a, by rw [run_pure, List.append_nil], h⟩

theorem yields_throw {e : ε} (h : P [] (.error e)) : (throw e : Prog C A ε α).Yields see P := fun o hist =>
  ⟨[], .error e, by rw [run_throw, List.append_nil], h⟩

theorem yields_ask {c : C} {P : List D → Except ε (A c) → Prop} (h : ∀ a, P (see ⟨c, a⟩) (.ok a)) :
    (ask c : Prog C A ε (A c)).Yields see P := fun o hist =>
  ⟨[⟨c, o hist c⟩], .ok (o hist c), run_ask o c hist, by simpa using h (o hist c)⟩

theorem pure_then (a : α) (f : α → Prog C A ε β) : (pure a >>= f) = f a := rfl

/-- One program, and what it goes on with. -/
theorem Yields.bind {f : α → Prog C A ε β} {Q : List D → Except ε β → Prop} (hp : p.Yields see P)
    (hok : ∀ ds a, P ds (.ok a) → (f a).Yields see fun ds' r => Q (ds ++ ds') r)
    (herr : ∀ ds e, P ds (.error e) → Q ds (.error e)) : (p >>= f).Yields see Q := by
  intro o hist
  obtain ⟨es, r, hrun, hP⟩ := hp o hist
  cases r with
  | ok a =>
    obtain ⟨es', r', hrun', hQ⟩ := hok _ a hP o (hist ++ es)
    refine ⟨es ++ es', r', ?_, ?_⟩
    · rw [run_bind, hrun, ← List.append_assoc]
      exact hrun'
    · rw [List.flatMap_append]
      exact hQ
  | error e =>
    refine ⟨es, .error e, ?_, herr _ e hP⟩
    rw [run_bind, hrun]

theorem Yields.tryCatch {f : ε → Prog C A ε α} (hp : p.Yields see P)
    (hok : ∀ ds a, P ds (.ok a) → Q ds (.ok a))
    (herr : ∀ ds e, P ds (.error e) → (f e).Yields see fun ds' r => Q (ds ++ ds') r) :
    (MonadExcept.tryCatch p f).Yields see Q := by
  intro o hist
  obtain ⟨es, r, hrun, hP⟩ := hp o hist
  cases r with
  | ok a =>
    refine ⟨es, .ok a, ?_, hok _ a hP⟩
    rw [run_tryCatch, hrun]
  | error e =>
    obtain ⟨es', r', hrun', hQ⟩ := herr _ e hP o (hist ++ es)
    refine ⟨es ++ es', r', ?_, ?_⟩
    · rw [run_tryCatch, hrun, ← List.append_assoc]
      exact hrun'
    · rw [List.flatMap_append]
      exact hQ

/-- What comes after a program that returns, whatever is answered. -/
theorem Yields.returned {f : α → Prog C A ε β} {R : List D → α → Prop} {Q : List D → Except ε β → Prop}
    (hp : p.Yields see fun ds r => ∃ a, r = .ok a ∧ R ds a)
    (hf : ∀ ds a, R ds a → (f a).Yields see fun ds' r => Q (ds ++ ds') r) : (p >>= f).Yields see Q := by
  refine Yields.bind hp (fun ds a h => ?_) fun ds e h => ?_
  · obtain ⟨a', ha, hR⟩ := h
    obtain rfl : a = a' := Except.ok.inj ha
    exact hf ds a hR
  · obtain ⟨a, ha, -⟩ := h
    cases ha

/-! ### What is not seen -/

/-- The program returns, and nothing of it is seen. -/
def Silent (see : Exchange C A → List D) (p : Prog C A ε α) : Prop :=
  p.Yields see fun ds r => ds = [] ∧ ∃ a, r = .ok a

theorem silent_pure (a : α) : Silent see (pure a : Prog C A ε α) := yields_pure ⟨rfl, a, rfl⟩

theorem silent_ask {c : C} (hc : ∀ a, see ⟨c, a⟩ = []) : Silent see (ask c : Prog C A ε (A c)) :=
  yields_ask fun a => ⟨hc a, a, rfl⟩

/-- Only what comes after a silent program is seen. -/
theorem Silent.then {f : α → Prog C A ε β} {Q : List D → Except ε β → Prop} (hp : Silent see p)
    (hf : ∀ a, (f a).Yields see Q) : (p >>= f).Yields see Q := by
  refine Yields.bind hp (fun ds a h => ?_) fun ds e h => ?_
  · rw [h.1]
    exact hf a
  · obtain ⟨-, a, ha⟩ := h
    cases ha

/-- The program raises this, and nothing of it is seen. -/
def Leaves (see : Exchange C A → List D) (p : Prog C A ε α) (e : ε) : Prop :=
  p.Yields see fun ds r => ds = [] ∧ r = .error e

theorem leaves_throw (e : ε) : Leaves see (throw e : Prog C A ε α) e := yields_throw ⟨rfl, rfl⟩

/-- What would come after is not run. -/
theorem Leaves.then {f : α → Prog C A ε β} {e : ε} (hp : Leaves see p e) : Leaves see (p >>= f) e := by
  refine Yields.bind hp (fun ds a h => ?_) fun ds e' h => ?_
  · cases h.2
  · obtain ⟨hds, h⟩ := h
    exact ⟨hds, congrArg Except.error (Except.error.inj h)⟩

/-! ### What is -/

/-- A command that is seen. -/
theorem yields_seen {c : C} {k : A c → Prog C A ε α}
    (hk : ∀ a, (k a).Yields see fun ds r => P (see ⟨c, a⟩ ++ ds) r) : (ask c >>= k).Yields see P := by
  refine (yields_ask (P := fun ds r => ∃ a, r = .ok a ∧ ds = see ⟨c, a⟩) fun a => ⟨a, rfl, rfl⟩).returned fun ds a h => ?_
  rw [h]
  exact hk a

/-- What a whole run shows, and how it ends. -/
theorem Yields.run (hp : p.Yields see P) (o : Oracle C A) :
    ∃ r, (p.run o []).2 = some r ∧ P ((p.run o []).1.flatMap see) r := by
  obtain ⟨es, r, hrun, hP⟩ := hp o []
  rw [hrun]
  exact ⟨r, rfl, hP⟩

/-! ### Programs that may not end -/

/-- The same of a program that may be cut off. -/
def Shows (see : Exchange C A → List D) (p : Prog C A ε α) (P : List D → Except ε α → Prop) : Prop :=
  ∀ (o : Oracle C A) (h : History C A), ∃ es r, p.run o h = (h ++ es, r) ∧ ∀ r', r = some r' → P (es.flatMap see) r'

theorem Yields.shows (hp : p.Yields see P) : p.Shows see P := by
  intro o hist
  obtain ⟨es, r, hrun, hP⟩ := hp o hist
  refine ⟨es, some r, hrun, fun r' h => ?_⟩
  obtain rfl : r = r' := Option.some.inj h
  exact hP

theorem shows_stop : (Prog.stop : Prog C A ε α).Shows see P := fun _ hist =>
  ⟨[], none, by rw [List.append_nil]; rfl, fun _ h => by cases h⟩

/-- A program that ends, and what goes on from there. -/
theorem Yields.shows_bind {f : α → Prog C A ε β} {Q : List D → Except ε β → Prop} (hp : p.Yields see P)
    (hok : ∀ ds a, P ds (.ok a) → (f a).Shows see fun ds' r => Q (ds ++ ds') r)
    (herr : ∀ ds e, P ds (.error e) → Q ds (.error e)) : (p >>= f).Shows see Q := by
  intro o hist
  obtain ⟨es, r, hrun, hP⟩ := hp o hist
  cases r with
  | ok a =>
    obtain ⟨es', r', hrun', hQ⟩ := hok _ a hP o (hist ++ es)
    refine ⟨es ++ es', r', ?_, fun r'' hr => ?_⟩
    · rw [run_bind, hrun, ← List.append_assoc]
      exact hrun'
    · rw [List.flatMap_append]
      exact hQ r'' hr
  | error e =>
    refine ⟨es, some (.error e), ?_, fun r' hr => ?_⟩
    · rw [run_bind, hrun]
    · obtain rfl : Except.error e = r' := Option.some.inj hr
      exact herr _ e hP

theorem Yields.returned_shows {f : α → Prog C A ε β} {R : List D → α → Prop} {Q : List D → Except ε β → Prop}
    (hp : p.Yields see fun ds r => ∃ a, r = .ok a ∧ R ds a)
    (hf : ∀ ds a, R ds a → (f a).Shows see fun ds' r => Q (ds ++ ds') r) : (p >>= f).Shows see Q := by
  refine Yields.shows_bind hp (fun ds a h => ?_) fun ds e h => ?_
  · obtain ⟨a', ha, hR⟩ := h
    obtain rfl : a = a' := Except.ok.inj ha
    exact hf ds a hR
  · obtain ⟨a, ha, -⟩ := h
    cases ha

/-- Only what comes after a silent program is seen. -/
theorem Silent.then_shows {f : α → Prog C A ε β} {Q : List D → Except ε β → Prop} (hp : Silent see p)
    (hf : ∀ a, (f a).Shows see Q) : (p >>= f).Shows see Q := by
  refine hp.shows_bind (fun ds a h => ?_) fun ds e h => ?_
  · rw [h.1]
    exact hf a
  · obtain ⟨-, a, ha⟩ := h
    cases ha

/-- What a run shows that ended. -/
theorem Shows.of_run (hp : p.Shows see P) {o : Oracle C A} {hist es : History C A} {r : Except ε α}
    (hrun : p.run o hist = (hist ++ es, some r)) : P (es.flatMap see) r := by
  obtain ⟨es', r', hrun', hP⟩ := hp o hist
  obtain ⟨hes, hr⟩ := Prod.mk.inj (hrun'.symm.trans hrun)
  rw [List.append_cancel_left hes] at hP
  exact hP r hr

end Prog
end MqResiliency
