/-
# Worklists

A loop that takes the first item of a list, passes over one that it has seen,
and puts what a new one leads to at the end (`crawl`). Where all items are
among finitely many, it ends (`crawl_ends`); what it has seen then is what can
be reached from the list (`mem_crawl`).
-/
import Mathlib.Data.Finset.Card
import Mathlib.Logic.Relation

namespace MqResiliency

section
variable {α : Type} (next : α → List α)

/-- The items that were seen when the list is empty, if that takes `n` rounds at most. -/
def crawl [DecidableEq α] : ℕ → (seen work : List α) → Option (List α)
  | _, seen, [] => some seen
  | 0, _, _ :: _ => none
  | n + 1, seen, x :: work =>
    if x ∈ seen then crawl n seen work else crawl n (seen ++ [x]) (work ++ next x)

/-- What can be reached from the list. -/
def ReachedFrom (work : List α) (y : α) : Prop := ∃ x ∈ work, Relation.ReflTransGen (fun a b => b ∈ next a) x y

variable {next}

theorem ReachedFrom.step {work : List α} {x y : α} (h : ReachedFrom next work x) (hy : y ∈ next x) :
    ReachedFrom next work y := by
  obtain ⟨w, hw, hx⟩ := h
  exact ⟨w, hw, hx.tail hy⟩

theorem ReachedFrom.of_mem {work : List α} {x : α} (h : x ∈ work) : ReachedFrom next work x := ⟨x, h, .refl⟩

/-- What holds of the list and is handed on holds of all that is reached. -/
theorem ReachedFrom.induction {work : List α} {P : α → Prop} (hwork : ∀ x ∈ work, P x)
    (hnext : ∀ x, ReachedFrom next work x → P x → ∀ y ∈ next x, P y) {y : α} (h : ReachedFrom next work y) : P y := by
  obtain ⟨x, hx, hreach⟩ := h
  have hboth : ReachedFrom next work y ∧ P y := by
    induction hreach with
    | refl => exact ⟨.of_mem hx, hwork x hx⟩
    | tail _ hstep ih => exact ⟨ih.1.step hstep, hnext _ ih.1 ih.2 _ hstep⟩
  exact hboth.2

/-- What leads to more reaches more. -/
theorem ReachedFrom.mono {next' : α → List α} {work work' : List α} (hnext : ∀ x, next x ⊆ next' x)
    (hwork : work ⊆ work') {y : α} (h : ReachedFrom next work y) : ReachedFrom next' work' y := by
  obtain ⟨x, hx, hreach⟩ := h
  exact ⟨x, hwork hx, Relation.ReflTransGen.mono (fun a _ hb => hnext a hb) _ _ hreach⟩

variable [DecidableEq α]

/-- **The loop ends**: each item is taken up once, and leads to finitely many. -/
theorem crawl_ends (all : Finset α) (hall : ∀ x ∈ all, ∀ y ∈ next x, y ∈ all) : ∀ (seen work : List α),
    (∀ x ∈ work, x ∈ all) → ∃ n seen', crawl next n seen work = some seen' := by
  intro seen work
  -- the items not yet seen become fewer, or the list shorter
  generalize hk : (all.filter (· ∉ seen)).card = k
  induction k using Nat.strong_induction_on generalizing seen work with
  | _ k ih =>
    intro hwork
    induction work with
    | nil => exact ⟨0, seen, rfl⟩
    | cons x work ihwork =>
      obtain ⟨hx, hwork'⟩ := List.forall_mem_cons.mp hwork
      by_cases hseen : x ∈ seen
      · obtain ⟨n, seen', h⟩ := ihwork hwork'
        exact ⟨n + 1, seen', by rw [crawl, if_pos hseen, h]⟩
      · have hless : (all.filter (· ∉ seen ++ [x])).card < k := by
          rw [← hk]
          refine Finset.card_lt_card (Finset.ssubset_iff_of_subset ?_ |>.mpr ⟨x, ?_, ?_⟩)
          · intro y hy
            simp only [Finset.mem_filter, List.mem_append, not_or] at hy ⊢
            exact ⟨hy.1, hy.2.1⟩
          · simpa [hseen] using hx
          · simp
        have hnext : ∀ y ∈ work ++ next x, y ∈ all := by
          intro y hy
          rcases List.mem_append.mp hy with hy | hy
          · exact hwork' y hy
          · exact hall x hx y hy
        obtain ⟨n, seen', h⟩ := ih _ hless (seen ++ [x]) (work ++ next x) rfl hnext
        exact ⟨n + 1, seen', by rw [crawl, if_neg hseen, h]⟩

/-- What is seen or still to come is all that is reached, as long as what was
seen leads only to such. -/
theorem mem_crawl_of {start : List α} : ∀ {n : ℕ} {seen work seen' : List α}, crawl next n seen work = some seen' →
    (∀ x ∈ seen ++ work, ReachedFrom next start x) → (∀ x ∈ start, x ∈ seen ++ work) →
    (∀ x ∈ seen, ∀ y ∈ next x, y ∈ seen ++ work) → ∀ y, y ∈ seen' ↔ ReachedFrom next start y
  | n, seen, [], seen', h, hreached, hstart, hclosed, y => by
    rw [List.append_nil] at *
    have hseen : seen = seen' := by
      cases n <;> simpa [crawl] using h
    subst hseen
    refine ⟨hreached y, fun hy => ?_⟩
    exact ReachedFrom.induction hstart (fun x _ hx z hz => by simpa using hclosed x hx z hz) hy
  | n + 1, seen, x :: work, seen', h, hreached, hstart, hclosed, y => by
    rw [crawl] at h
    split at h
    · rename_i hx
      have hsub : ∀ z ∈ seen ++ x :: work, z ∈ seen ++ work := by
        intro z hz
        rcases List.mem_append.mp hz with hz | hz
        · exact List.mem_append_left _ hz
        · rcases List.mem_cons.mp hz with rfl | hz
          · exact List.mem_append_left _ hx
          · exact List.mem_append_right _ hz
      refine mem_crawl_of h (fun z hz => hreached z ?_) (fun z hz => hsub z (hstart z hz))
        (fun z hz w hw => hsub w (hclosed z hz w hw)) y
      rcases List.mem_append.mp hz with hz | hz
      · exact List.mem_append_left _ hz
      · exact List.mem_append_right _ (List.mem_cons_of_mem x hz)
    · have hxr : ReachedFrom next start x := hreached x (by simp)
      have hsub : ∀ z ∈ seen ++ x :: work, z ∈ seen ++ [x] ++ (work ++ next x) := by
        intro z hz
        simp only [List.mem_append, List.mem_cons] at hz ⊢
        tauto
      refine mem_crawl_of h (fun z hz => ?_) (fun z hz => hsub z (hstart z hz)) (fun z hz w hw => ?_) y
      · simp only [List.mem_append, List.mem_cons, List.not_mem_nil, or_false] at hz
        rcases hz with (hz | rfl) | hz | hz
        · exact hreached z (by simp [hz])
        · exact hxr
        · exact hreached z (by simp [hz])
        · exact hxr.step hz
      · rcases List.mem_append.mp hz with hz | hz
        · exact hsub w (hclosed z hz w hw)
        · obtain rfl := List.mem_singleton.mp hz
          simp [hw]

/-- **What the loop has seen is what can be reached.** -/
theorem mem_crawl {n : ℕ} {work seen : List α} (h : crawl next n [] work = some seen) (y : α) :
    y ∈ seen ↔ ReachedFrom next work y :=
  mem_crawl_of h (fun x hx => .of_mem (by simpa using hx)) (fun x hx => by simpa using hx) (by simp) y

end
end MqResiliency
