/-
# Tasks on a host

How a play runs things on one host: a loop runs every item of its list,
whatever they come to (`looped`); tasks in a row run up to the first that is
not ok (`inRow`). A host that is unreachable once is lost, else one failure
makes all of it fail (`verdict`).
-/
import MqResiliency.Lib.Seen

namespace MqResiliency
namespace Tasks

open Prog

/-- What a task comes to, with the results that failed. -/
inductive Ended (F : Type) : Type where
  | ok
  | failed (results : List F)
  | unreachable
deriving DecidableEq

variable {C : Type} {A : C → Type} {ε D I F : Type}

/-- What was run, and what each came to. -/
abbrev Done (I F : Type) : Type := List (I × Ended F)

section
variable (exec : I → Prog C A ε (Ended F))

/-- A looped task. -/
def looped : List I → Prog C A ε (Done I F)
  | [] => pure []
  | item :: items => do
    let e ← exec item
    let rest ← looped items
    pure ((item, e) :: rest)

/-- Tasks in a row. -/
def inRow : List I → Prog C A ε (Done I F)
  | [] => pure []
  | item :: items => do
    let e ← exec item
    if e matches .ok then
      let rest ← inRow items
      pure ((item, e) :: rest)
    else pure [(item, e)]

end

/-- The results of an item that failed. -/
def Ended.results : Ended F → List F
  | failed results => results
  | _ => []

/-- What all of it comes to. -/
def verdict (done : Done I F) : Ended F :=
  if done.any fun e => e.2 matches .unreachable then .unreachable
  else if done.any fun e => e.2 matches .failed _ then .failed (done.flatMap fun e => e.2.results)
  else .ok

/-- All is ok if each is. -/
theorem verdict_eq_ok {done : Done I F} : verdict done = .ok ↔ ∀ e ∈ done, e.2 = .ok := by
  unfold verdict
  constructor
  · intro h e he
    split at h
    · cases h
    · rename_i hlost
      split at h
      · cases h
      · rename_i hfailed
        simp only [List.any_eq_true, not_exists, not_and] at hlost hfailed
        cases hend : e.2 with
        | ok => rfl
        | failed results => exact absurd (by simp [hend]) (hfailed e he)
        | unreachable => exact absurd (by simp [hend]) (hlost e he)
  · intro h
    have hlost : ¬ (done.any fun e => e.2 matches .unreachable) := by
      simp only [List.any_eq_true, not_exists, not_and]
      intro e he
      simp [h e he]
    have hfailed : ¬ (done.any fun e => e.2 matches .failed _) := by
      simp only [List.any_eq_true, not_exists, not_and]
      intro e he
      simp [h e he]
    rw [if_neg hlost, if_neg hfailed]

/-- The host is lost if it was once. -/
theorem verdict_eq_unreachable {done : Done I F} : verdict done = .unreachable ↔ ∃ e ∈ done, e.2 = .unreachable := by
  have hmatch : ∀ e : Ended F, (e matches .unreachable) = true ↔ e = .unreachable := fun e => by cases e <;> simp
  unfold verdict
  constructor
  · intro h
    split at h
    · rename_i hlost
      obtain ⟨e, he, hm⟩ := List.any_eq_true.mp hlost
      exact ⟨e, he, (hmatch e.2).mp hm⟩
    · split at h <;> cases h
  · rintro ⟨e, he, hend⟩
    rw [if_pos (List.any_eq_true.mpr ⟨e, he, (hmatch e.2).mpr hend⟩)]

/-- A failure has the results of all that failed. -/
theorem verdict_eq_failed {done : Done I F} {results : List F} (h : verdict done = .failed results) :
    results = done.flatMap fun e => e.2.results := by
  unfold verdict at h
  split at h
  · cases h
  · split at h
    · exact (Ended.failed.inj h).symm
    · cases h

/-! ### What is run -/

/-- All items were run, or those up to one that was not ok. -/
structure Ran (items : List I) (done : Done I F) : Prop where
  inOrder : done.map Prod.fst <+: items
  complete : verdict done = .ok → done.map Prod.fst = items

/-- One more item that was run first. -/
theorem Ran.cons {items : List I} {done : Done I F} (h : Ran items done) (item : I) (e : Ended F) :
    Ran (item :: items) ((item, e) :: done) where
  inOrder := List.cons_prefix_cons.mpr ⟨rfl, h.inOrder⟩
  complete := by
    intro hok
    have hrest : verdict done = .ok := verdict_eq_ok.mpr fun x hx => verdict_eq_ok.mp hok x (List.mem_cons_of_mem _ hx)
    rw [List.map_cons, h.complete hrest]

theorem verdict_append_eq_ok {done done' : Done I F} :
    verdict (done ++ done') = .ok ↔ verdict done = .ok ∧ verdict done' = .ok := by
  simp only [verdict_eq_ok, List.forall_mem_append]

/-- Tasks after tasks that were all ok. -/
theorem Ran.append {items items' : List I} {done done' : Done I F} (h : Ran items done) (hok : verdict done = .ok)
    (h' : Ran items' done') : Ran (items ++ items') (done ++ done') where
  inOrder := by
    rw [List.map_append, h.complete hok]
    exact (List.prefix_append_right_inj items).mpr h'.inOrder
  complete := by
    intro hall
    rw [List.map_append, h.complete hok, h'.complete (verdict_append_eq_ok.mp hall).2]

/-- Tasks after tasks that were not: they are not run. -/
theorem Ran.stop {items : List I} {done : Done I F} (h : Ran items done) (hok : verdict done ≠ .ok) (items' : List I) :
    Ran (items ++ items') done where
  inOrder := h.inOrder.trans (List.prefix_append items items')
  complete := fun hall => absurd hall hok

section
variable {see : Exchange C A → List D} {exec : I → Prog C A ε (Ended F)} {deed : I × Ended F → D}

theorem yields_looped (h : ∀ item, (exec item).Yields see fun ds r => ∃ e, r = .ok e ∧ ds = [deed (item, e)]) :
    ∀ items : List I, (looped exec items).Yields see fun ds r => ∃ done, r = .ok done ∧ ds = done.map deed ∧ Ran items done
  | [] => yields_pure ⟨[], rfl, rfl, List.prefix_rfl, fun _ => rfl⟩
  | item :: items => by
    refine (h item).returned fun ds e hds => ?_
    refine (yields_looped h items).returned fun ds' rest hrest => ?_
    obtain ⟨rfl, hran⟩ := hrest
    exact yields_pure ⟨(item, e) :: rest, rfl, by simp [hds], hran.cons item e⟩

theorem yields_inRow (h : ∀ item, (exec item).Yields see fun ds r => ∃ e, r = .ok e ∧ ds = [deed (item, e)]) :
    ∀ items : List I, (inRow exec items).Yields see fun ds r => ∃ done, r = .ok done ∧ ds = done.map deed ∧ Ran items done
  | [] => yields_pure ⟨[], rfl, rfl, List.prefix_rfl, fun _ => rfl⟩
  | item :: items => by
    have hstop : ∀ e : Ended F, e ≠ .ok → (pure [(item, e)] : Prog C A ε (Done I F)).Yields see fun ds r =>
        ∃ done, r = .ok done ∧ [deed (item, e)] ++ ds = done.map deed ∧ Ran (item :: items) done := by
      intro e he
      refine yields_pure ⟨[(item, e)], rfl, rfl, ?_, fun hok => ?_⟩
      · exact List.cons_prefix_cons.mpr ⟨rfl, List.nil_prefix⟩
      · exact absurd (verdict_eq_ok.mp hok _ (List.mem_singleton_self _)) he
    refine (h item).returned fun ds e hds => ?_
    rw [hds]
    cases e with
    | ok =>
      refine (yields_inRow h items).returned fun ds' rest hrest => ?_
      obtain ⟨rfl, hran⟩ := hrest
      exact yields_pure ⟨(item, .ok) :: rest, rfl, by simp, hran.cons item .ok⟩
    | failed results => exact hstop _ (by simp)
    | unreachable => exact hstop _ (by simp)

end

end Tasks
end MqResiliency
