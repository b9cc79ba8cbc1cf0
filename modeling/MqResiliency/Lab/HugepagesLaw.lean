/-
# No guest boots without its pages

The kernel's pool of huge pages and what guests hold of it (`Host`), the answers
that the kernel may give (`Kernel`), and the states that reservations, guests
that boot and stop, and releases lead to (`Reached`). In none of them do guests
hold more than the pool (`sound_reached`), and after a reservation that returns
each of its guests finds its pages, in whatever order they boot and others stop
(`guests_find_pages`). A reservation that was cut off lowered nothing, and the
next one returns where the kernel has what is asked for (`reservation_resumes`).
-/
import Mathlib.Algebra.BigOperators.Group.Finset.Basic
import Mathlib.Algebra.BigOperators.Ring.Finset
import Mathlib.Algebra.Order.BigOperators.Group.Finset
import MqResiliency.Lab.Hugepages
import MqResiliency.Lib.Raise
import MqResiliency.Lib.Trace

namespace MqResiliency
namespace Hugepages

open Py Lab Prog

/-! ### The kernel -/

/-- The pool, the guests that are up, and the pages that others hold. -/
structure Host : Type where
  total : ℕ
  live : Finset Str
  foreign : ℕ

section
variable (size : Str → ℕ)

/-- The pages that are held. -/
def Host.committed (h : Host) : ℕ := ∑ g ∈ h.live, size g + h.foreign

/-- No more is held than there is. -/
def Host.Sound (h : Host) : Prop := h.committed size ≤ h.total

def Host.available (h : Host) : ℤ := (h.total : ℤ) - h.committed size

/-- The counters of a host; pages that are held but not used yet are free and
reserved. -/
structure Shown (h : Host) (hp : Meminfo) : Prop where
  total : hp.total = h.total
  available : hp.available = h.available size

/-- Guests may stop. -/
structure Idles (h h' : Host) : Prop where
  total : h'.total = h.total
  live : h'.live ⊆ h.live
  foreign : h'.foreign ≤ h.foreign

/-- The pool grows towards the target, as far as the kernel finds pages, or
shrinks towards it, by pages that nobody holds. -/
structure Resized (target : ℤ) (h h' : Host) : Prop where
  live : h'.live = h.live
  foreign : h'.foreign = h.foreign
  grow : (h.total : ℤ) ≤ target → h.total ≤ h'.total ∧ (h'.total : ℤ) ≤ target
  shrink : target ≤ h.total → target ≤ h'.total ∧ h'.total ≤ h.total
  sound : h.Sound size → h'.Sound size

/-- What the kernel may answer. -/
inductive Kernel : Env Host Cmd Ans where
  | meminfo {h h' : Host} {hp : Meminfo} : Shown size h hp → Idles h h' → Kernel h .meminfo (some hp) h'
  | noCounters {h h' : Host} : Idles h h' → Kernel h .meminfo none h'
  | resize {h h₁ h' : Host} {target : ℤ} {ok : Bool} : Resized size target h h₁ → Idles h₁ h' →
      Kernel h (.resize target) ok h'
  | sync {h h' : Host} {ok : Bool} : Idles h h' → Kernel h .sync ok h'
  | reclaim {h h₁ h' : Host} {target : ℤ} {ok : Bool} : Resized size target h h₁ → Idles h₁ h' →
      Kernel h (.reclaim target) ok h'

end

variable {size : Str → ℕ} {h h' h₀ : Host} {topo : Sized}

theorem Idles.refl (h : Host) : Idles h h := ⟨rfl, subset_rfl, le_rfl⟩

theorem Idles.committed (hi : Idles h h') : h'.committed size ≤ h.committed size :=
  Nat.add_le_add (Finset.sum_le_sum_of_subset hi.live) hi.foreign

theorem Idles.sound (hi : Idles h h') (hs : h.Sound size) : h'.Sound size := by
  unfold Host.Sound at hs ⊢
  rw [hi.total]
  exact hi.committed.trans hs

theorem Idles.available (hi : Idles h h') : h.available size ≤ h'.available size := by
  have hc : h'.committed size ≤ h.committed size := hi.committed
  unfold Host.available
  rw [hi.total]
  omega

theorem Resized.committed {target : ℤ} (hr : Resized size target h h') : h'.committed size = h.committed size := by
  unfold Host.committed
  rw [hr.live, hr.foreign]

/-! ### A reservation -/

/-- What holds throughout a reservation: the pool is not lowered, and no guest
comes up. -/
structure Kept (size : Str → ℕ) (h₀ h : Host) : Prop where
  sound : h.Sound size
  total : h₀.total ≤ h.total
  live : h.live ⊆ h₀.live

theorem Kept.idles (hk : Kept size h₀ h) (hi : Idles h h') : Kept size h₀ h' :=
  ⟨hi.sound hk.sound, hi.total.symm ▸ hk.total, hi.live.trans hk.live⟩

/-- A resize to no less than the pool. -/
theorem Kept.resized {target : ℤ} (hk : Kept size h₀ h) (hr : Resized size target h h')
    (hle : (h.total : ℤ) ≤ target) : Kept size h₀ h' :=
  ⟨hr.sound hk.sound, hk.total.trans (hr.grow hle).1, hr.live ▸ hk.live⟩

/-- The pool is below the target, or enough is free already. -/
def Aimed (size : Str → ℕ) (target needed : ℤ) (h : Host) : Prop :=
  (h.total : ℤ) ≤ target ∨ needed ≤ h.available size

theorem Aimed.idles {target needed : ℤ} (ha : Aimed size target needed h) (hi : Idles h h') :
    Aimed size target needed h' :=
  ha.imp (fun hle => hi.total.symm ▸ hle) fun hle => hle.trans hi.available

section
variable {f : Failure} {target needed : ℤ} {P : Host → Prop}

/-- Reading the counters. -/
theorem wp_slurp {Q : Meminfo → Host → Prop} {E : Failure → Host → Prop} (hk : Kept size h₀ h)
    (hread : ∀ hp h', Shown size h hp → Idles h h' → Kept size h₀ h' → Q hp h')
    (hfail : ∀ h', Kept size h₀ h' → E f h') : (slurp f).wp (Kernel size) (Kept size h₀) Q E h := by
  intro a h' hs
  cases hs with
  | meminfo hshown hi => exact ⟨hk.idles hi, hread _ _ hshown hi (hk.idles hi)⟩
  | noCounters hi => exact ⟨hk.idles hi, hfail _ (hk.idles hi)⟩

theorem wp_require {Q : Unit → Host → Prop} {E : Failure → Host → Prop} {name : String} {p : Prop} [Decidable p]
    (hok : p → Q () h) (hno : ¬ p → E (.stepFailed name.toList) h) :
    (require name p).wp (Kernel size) (Kept size h₀) Q E h := by
  unfold require
  split
  · exact hok ‹_›
  · exact hno ‹_›

/-- What a task may leave: it failed, or `P`. -/
abbrev Leaves (size : Str → ℕ) (h₀ : Host) (P : Host → Prop) (t : Play Unit) (h : Host) : Prop :=
  t.wp (Kernel size) (Kept size h₀) (fun _ h' => Kept size h₀ h' ∧ P h') (fun _ h' => Kept size h₀ h') h

theorem leaves_onlyWhen {p : Prop} [Decidable p] {t : Play Unit} (hk : Kept size h₀ h) (hyes : p → Leaves size h₀ P t h)
    (hno : ¬ p → P h) : Leaves size h₀ P (onlyWhen p t) h := by
  unfold onlyWhen
  split
  · exact hyes ‹_›
  · exact ⟨hk, hno ‹_›⟩

theorem leaves_task {name : String} {command : Play Bool}
    (hc : command.wp (Kernel size) (Kept size h₀) (fun _ h' => Kept size h₀ h' ∧ P h') (fun _ _ => False) h) :
    Leaves size h₀ P (task name command) h := by
  refine (wp_must _ _ _ _ _).mpr (wp_mono (fun ok h' hleft => ?_) (fun _ _ hno => hno.elim) _ _ hc)
  cases ok
  · exact hleft.1
  · exact hleft

theorem leaves_resize {name : String} (hk : Kept size h₀ h) (hle : (h.total : ℤ) ≤ target) :
    Leaves size h₀ (Aimed size target needed) (task name (resize target)) h := by
  refine leaves_task fun ok h' hs => ?_
  cases hs with
  | resize hr hi =>
    have hkept := (hk.resized hr hle).idles hi
    exact ⟨hkept, hkept, .inl (hi.total.symm ▸ (hr.grow hle).2)⟩

theorem leaves_reclaim {name : String} (hk : Kept size h₀ h) (hle : (h.total : ℤ) ≤ target) :
    Leaves size h₀ (fun _ => True) (task name (reclaim target)) h := by
  refine leaves_task fun ok h' hs => ?_
  cases hs with
  | reclaim hr hi =>
    have hkept := (hk.resized hr hle).idles hi
    exact ⟨hkept, hkept, trivial⟩

theorem leaves_sync {name : String} (hk : Kept size h₀ h) (hle : (h.total : ℤ) ≤ target) :
    Leaves size h₀ (fun h' => (h'.total : ℤ) ≤ target) (task name sync) h := by
  refine leaves_task fun ok h' hs => ?_
  cases hs with
  | sync hi => exact ⟨hk.idles hi, hk.idles hi, hi.total.symm ▸ hle⟩

end

/-- **A reservation that returns has freed what is needed**, and wherever it is cut
off the pool was not lowered. -/
theorem wp_reservePlay {needed : ℤ} (hk : Kept size h₀ h) : (reservePlay needed).wp (Kernel size) (Kept size h₀)
    (fun _ h' => Kept size h₀ h' ∧ needed ≤ h'.available size) (fun _ h' => Kept size h₀ h') h := by
  unfold reservePlay
  rw [wp_bind]
  refine wp_require (fun _ => ?_) fun _ => hk
  rw [wp_bind]
  refine wp_slurp hk (fun hp₁ h₁ hshown₁ hi₁ hk₁ => ?_) fun h' hk' => hk'
  rw [wp_bind]
  refine wp_require (fun _ => ?_) fun _ => hk₁
  -- the target is what is held and what is needed
  have htarget : ((hp₁.total : ℤ) - hp₁.available + needed) = h.committed size + needed := by
    rw [hshown₁.total, hshown₁.available, Host.available]
    omega
  dsimp only
  rw [htarget]
  refine wp_then (P := fun _ h' => Kept size h₀ h' ∧ Aimed size (h.committed size + needed) needed h')
    (leaves_onlyWhen hk₁ (fun hless => ?_) fun hless => ?_) fun _ h₂ hleft => ?_
  · refine leaves_resize hk₁ ?_
    rw [hshown₁.available, Host.available] at hless
    rw [hi₁.total]
    omega
  · rw [hshown₁.available, not_lt] at hless
    exact .inr (hless.trans hi₁.available)
  obtain ⟨hk₂, haimed⟩ := hleft
  rw [wp_bind]
  refine wp_slurp hk₂ (fun hp₃ h₃ hshown₃ hi₃ hk₃ => ?_) fun h' hk' => hk'
  have hbelow : hp₃.available < needed → (h₃.total : ℤ) ≤ h.committed size + needed := by
    intro hless
    rcases haimed with hle | hle
    · exact hi₃.total.symm ▸ hle
    · rw [hshown₃.available] at hless
      omega
  refine wp_then (P := fun _ h' => Kept size h₀ h' ∧
    (hp₃.available < needed → (h'.total : ℤ) ≤ h.committed size + needed))
    (leaves_onlyWhen hk₃ (fun hless => ?_) fun hless => fun h => absurd h hless) fun _ h₄ hleft => ?_
  · exact wp_mono (fun _ h' hsync => ⟨hsync.1, fun _ => hsync.2⟩) (fun _ _ hno => hno) _ _
      (leaves_sync hk₃ (hbelow hless))
  obtain ⟨hk₄, hbelow₄⟩ := hleft
  refine wp_then (P := fun _ h' => Kept size h₀ h' ∧ True)
    (leaves_onlyWhen hk₄ (fun hless => leaves_reclaim hk₄ (hbelow₄ hless)) fun _ => trivial) fun _ h₅ hleft => ?_
  rw [wp_bind]
  refine wp_slurp hleft.1 (fun hp₆ h₆ hshown₆ hi₆ hk₆ => ?_) fun h' hk' => hk'
  refine wp_require (fun henough => ⟨hk₆, ?_⟩) fun _ => hk₆
  rw [hshown₆.available] at henough
  exact henough.trans hi₆.available

/-! ### What is needed -/

/-- The pages of the memory that a guest is given. -/
def bootPages (topo : Sized) (guest : Str) : Option ℕ :=
  (topo.sizing.get? guest).bind fun spec =>
    (nodeSizing guest spec topo.defaults).toOption.map fun size => (pagesFor size.2).toNat

theorem positive_eq {value : Scalar} {n : ℕ} (h : value.positive = some n) : value = .int n ∧ 0 < n := by
  cases value with
  | int k =>
    rw [Scalar.positive] at h
    split at h
    · cases h
    · obtain rfl := Option.some.inj h
      exact ⟨congrArg Scalar.int (by omega), by omega⟩
  | bool b => cases h
  | other repr n => cases h

/-- **The need is of the sizes that the guests are given.** -/
theorem guestMemory_of_bootPages {guest : Str} {pages : ℕ} (h : bootPages topo guest = some pages) :
    ∃ m, guestMemoryMib topo guest = .ok m ∧ pagesFor m = pages := by
  obtain ⟨spec, hspec, h⟩ := Option.bind_eq_some_iff.mp h
  obtain ⟨⟨c, m⟩, hsizing, hpages⟩ := Option.map_eq_some_iff.mp h
  unfold nodeSizing at hsizing
  dsimp only at hsizing
  split at hsizing
  · rename_i c' m' hc hm
    obtain ⟨rfl, rfl⟩ := Prod.mk.inj (Option.some.inj hsizing)
    obtain ⟨hint, hpos⟩ := positive_eq hm
    refine ⟨m', ?_, ?_⟩
    · simp [guestMemoryMib, hspec, hint, Scalar.toInt]
    · rw [← hpages, pagesFor, pageMib]
      omega
  · cases hsizing
  · cases hsizing

theorem neededPages_eq {toBoot : List Str} (hne : toBoot ≠ []) (h : ∀ g ∈ toBoot, bootPages topo g = some (size g)) :
    neededPages topo toBoot = .ok (((toBoot.map size).sum : ℕ) + marginPages) := by
  have hpages : (toBoot.mapM fun g => do return pagesFor (← guestMemoryMib topo g)) =
      .ok (toBoot.map fun g => (size g : ℤ)) := by
    refine mapM_of_ok fun g hg => ?_
    obtain ⟨m, hm, hsize⟩ := guestMemory_of_bootPages (h g hg)
    rw [hm, ← hsize]
    rfl
  have hsum : (toBoot.map fun g => (size g : ℤ)).sum = ((toBoot.map size).sum : ℕ) := by
    rw [Nat.cast_list_sum, List.map_map]
    rfl
  rw [neededPages, if_neg hne, hpages, ← hsum]
  rfl

theorem wp_sized {α : Type} {env : Env Host Cmd Ans} {Q : α → Host → Prop} {E : Failure → Host → Prop}
    {I : Host → Prop} (a : α) : (sized (.ok a)).wp env I Q E h ↔ Q a h := Iff.rfl

/-- **A reservation for some guests leaves room for them.** -/
theorem wp_reserveHugepages {toBoot : List Str} (hlever : hugepagesEnabled topo.toTopology = some true)
    (hsized : ∀ g ∈ toBoot, bootPages topo g = some (size g)) (hk : Kept size h₀ h) :
    (reserveHugepages topo toBoot).wp (Kernel size) (Kept size h₀) (fun _ h' => Kept size h₀ h' ∧
      (toBoot ≠ [] → ((toBoot.map size).sum : ℕ) + marginPages ≤ h'.available size))
    (fun _ h' => Kept size h₀ h') h := by
  unfold reserveHugepages
  rw [hlever]
  dsimp only
  by_cases hnil : toBoot = []
  · rw [hnil]
    exact ⟨hk, fun hne => absurd rfl hne⟩
  rw [neededPages_eq hnil hsized, wp_bind, wp_sized]
  -- with the margin it is positive
  generalize hneeded : (((toBoot.map size).sum : ℕ) : ℤ) + marginPages = needed
  have hpos : 1 ≤ needed := by
    rw [← hneeded, marginPages]
    omega
  rw [if_neg (by omega), wp_bind]
  refine wp_slurp hk (fun _ h₁ _ _ hk₁ => ?_) fun h' hk' => hk'
  rw [wp_bind, onlyWhen, if_neg (by omega), wp_pure]
  refine wp_then (wp_reservePlay hk₁) fun _ h₂ hleft => ?_
  rw [wp_bind]
  exact wp_slurp hleft.1 (fun _ h₃ _ hi₃ hk₃ => ⟨hk₃, fun _ => hleft.2.trans hi₃.available⟩) fun h' hk' => hk'

/-! ### Guests boot and stop -/

inductive Event : Type where
  | boot (guest : Str)
  | stop (guest : Str)

def Host.after (h : Host) : Event → Host
  | .boot g => { h with live := insert g h.live }
  | .stop g => { h with live := h.live.erase g }

/-- There is room for those of the guests that are not up, and for the margin. -/
def Room (size : Str → ℕ) (guests : Finset Str) (h : Host) : Prop :=
  ((∑ g ∈ guests \ h.live, size g : ℕ) : ℤ) + marginPages ≤ h.available size

theorem committed_boot {g : Str} (hg : g ∉ h.live) :
    (h.after (.boot g)).committed size = h.committed size + size g := by
  simp only [Host.after, Host.committed, Finset.sum_insert hg]
  omega

theorem committed_stop {g : Str} (hg : g ∈ h.live) :
    (h.after (.stop g)).committed size + size g = h.committed size := by
  simp only [Host.after, Host.committed, ← Finset.sum_erase_add h.live size hg]
  omega

theorem sum_insert_le (size : Str → ℕ) (g : Str) (gs : Finset Str) :
    ∑ x ∈ insert g gs, size x ≤ size g + ∑ x ∈ gs, size x := by
  by_cases hg : g ∈ gs
  · rw [Finset.insert_eq_of_mem hg]
    omega
  · rw [Finset.sum_insert hg]

/-- A guest that has room boots in it; one that stops makes room. -/
theorem Room.after {guests : Finset Str} (hr : Room size guests h) {ev : Event}
    (hev : ∀ g, ev = .boot g → g ∈ guests) : Room size guests (h.after ev) := by
  unfold Room Host.available at hr ⊢
  cases ev with
  | boot g =>
    by_cases hg : g ∈ h.live
    · have hsame : h.after (.boot g) = h := by simp [Host.after, hg]
      rwa [hsame]
    · have hin : g ∈ guests \ h.live := Finset.mem_sdiff.mpr ⟨hev g rfl, hg⟩
      have hrest : guests \ (h.after (.boot g)).live = (guests \ h.live).erase g := by
        simp [Host.after, Finset.sdiff_insert]
      have hsum := Finset.sum_erase_add (guests \ h.live) size hin
      rw [committed_boot hg, hrest]
      have htotal : (h.after (.boot g)).total = h.total := rfl
      rw [htotal]
      omega
  | stop g =>
    by_cases hg : g ∈ h.live
    · have hc : (h.after (.stop g)).committed size + size g = h.committed size := committed_stop hg
      have hrest : guests \ (h.after (.stop g)).live ⊆ insert g (guests \ h.live) := by
        intro x hx
        simp only [Host.after, Finset.mem_sdiff, Finset.mem_erase, Finset.mem_insert] at hx ⊢
        tauto
      have hsum := (Finset.sum_le_sum_of_subset (f := size) hrest).trans (sum_insert_le size _ _)
      have htotal : (h.after (.stop g)).total = h.total := rfl
      rw [htotal]
      omega
    · have hsame : h.after (.stop g) = h := by simp [Host.after, hg]
      rwa [hsame]

theorem Room.afterAll {guests : Finset Str} : ∀ {evs : List Event} {h : Host}, Room size guests h →
    (∀ g, .boot g ∈ evs → g ∈ guests) → Room size guests (evs.foldl Host.after h)
  | [], _, hr, _ => hr
  | ev :: evs, h, hr, hev => by
    have hr' : Room size guests (h.after ev) := hr.after fun g heq => hev g (heq ▸ List.mem_cons_self)
    rw [List.foldl_cons]
    exact Room.afterAll hr' fun g hg => hev g (List.mem_cons_of_mem ev hg)

theorem Room.sound {guests : Finset Str} (hr : Room size guests h) : h.Sound size := by
  unfold Room Host.available marginPages at hr
  unfold Host.Sound
  omega

/-- Each guest has its pages, and the margin is left. -/
theorem Room.fits {guests : Finset Str} (hr : Room size guests h) {g : Str} (hg : g ∈ guests) (hlive : g ∉ h.live) :
    (size g : ℤ) + marginPages ≤ h.available size := by
  have hle := Finset.single_le_sum (f := size) (fun _ _ => Nat.zero_le _) (Finset.mem_sdiff.mpr ⟨hg, hlive⟩)
  unfold Room at hr
  omega

theorem sum_sdiff_le (size : Str → ℕ) (guests : List Str) (live : Finset Str) :
    ∑ g ∈ guests.toFinset \ live, size g ≤ (guests.map size).sum := by
  refine (Finset.sum_le_sum_of_subset Finset.sdiff_subset).trans ?_
  induction guests with
  | nil => simp
  | cons g gs ih =>
    rw [List.toFinset_cons, List.map_cons, List.sum_cons]
    exact (sum_insert_le size _ _).trans (Nat.add_le_add_left ih _)

theorem kept_refl (hs : h.Sound size) : Kept size h h := ⟨hs, le_rfl, subset_rfl⟩

/-- After a reservation that returned, there is room. -/
theorem room_of_reserved {toBoot : List Str} (hs : h.Sound size) (hlever : hugepagesEnabled topo.toTopology = some true)
    (hsized : ∀ g ∈ toBoot, bootPages topo g = some (size g))
    (hrun : Reach (Kernel size) (reserveHugepages topo toBoot, h) (.ret (), h')) (hne : toBoot ≠ []) :
    Room size toBoot.toFinset h' := by
  obtain ⟨-, -, hroom⟩ := wp_reach hrun (kept_refl hs) (wp_reserveHugepages hlever hsized (kept_refl hs))
  have hle := sum_sdiff_le size toBoot h'.live
  have hroom : ((toBoot.map size).sum : ℕ) + marginPages ≤ h'.available size := hroom hne
  unfold Room
  omega

/-! ### A reservation that was cut off -/

/-- Answers of a kernel that has what is asked for. -/
inductive Gives : Env Host Cmd Ans where
  | meminfo {h h' : Host} {hp : Meminfo} : hp.sizeKib = pageKib → Gives h .meminfo (some hp) h'
  | resize {h h' : Host} {target : ℤ} : ((h.total : ℤ) ≤ target → (h'.total : ℤ) = target) →
      Gives h (.resize target) true h'
  | sync {h h' : Host} : Gives h .sync true h'
  | reclaim {h h' : Host} {target : ℤ} : ((h.total : ℤ) ≤ target → (h'.total : ℤ) = target) →
      Gives h (.reclaim target) true h'

abbrev Generous (size : Str → ℕ) : Env Host Cmd Ans := restrict (Kernel size) Gives

theorem ends_onlyWhen {p : Prop} [Decidable p] {t : Play Unit} (ht : t.Ends) : (onlyWhen p t).Ends := by
  unfold onlyWhen
  split
  · exact ht
  · exact trivial

theorem ends_require {p : Prop} [Decidable p] (name : String) : (require name p).Ends := by
  unfold require
  split <;> exact trivial

theorem ends_slurp (f : Failure) : (slurp f).Ends := by
  rintro (- | hp) <;> exact trivial

theorem ends_task {name : String} {command : Play Bool} (hc : command.Ends) : (task name command).Ends :=
  hc.bind fun ok => by cases ok <;> exact trivial

theorem ends_reservePlay (needed : ℤ) : (reservePlay needed).Ends :=
  (ends_require _).bind fun _ => (ends_slurp _).bind fun _ => (ends_require _).bind fun _ =>
    (ends_onlyWhen (ends_task (ends_ask (Cmd.resize _)))).bind fun _ => (ends_slurp _).bind fun _ =>
      (ends_onlyWhen (ends_task (ends_ask Cmd.sync))).bind fun _ =>
        (ends_onlyWhen (ends_task (ends_ask (Cmd.reclaim _)))).bind fun _ =>
          (ends_slurp _).bind fun _ => ends_require _

theorem ends_sized {α : Type} : ∀ r : Except SizingError α, (sized r).Ends
  | .ok _ => trivial
  | .error _ => trivial

theorem ends_reserveHugepages (topo : Sized) (toBoot : List Str) : (reserveHugepages topo toBoot).Ends := by
  unfold reserveHugepages
  split
  · exact trivial
  · exact trivial
  · refine (ends_sized _).bind fun needed => ?_
    split
    · exact trivial
    · exact (ends_slurp _).bind fun _ => (ends_onlyWhen (ends_throw _)).bind fun _ =>
        (ends_reservePlay needed).bind fun _ => (ends_slurp _).bind fun _ => trivial

section
variable {f : Failure} {needed : ℤ}

/-- Enough is free, and the pool is no larger than it has to be. -/
structure Exact (size : Str → ℕ) (needed : ℤ) (h₀ h : Host) : Prop where
  enough : needed ≤ h.available size
  total : (h.total : ℤ) ≤ max (h₀.total : ℤ) (h₀.committed size + needed)

theorem Exact.idles (he : Exact size needed h₀ h) (hi : Idles h h') : Exact size needed h₀ h' :=
  ⟨he.enough.trans hi.available, hi.total.symm ▸ he.total⟩

theorem gives_slurp {Q : Meminfo → Host → Prop}
    (hread : ∀ hp h', Shown size h hp → hp.sizeKib = pageKib → Idles h h' → Q hp h') :
    (slurp f).wp (Generous size) (fun _ => True) Q (fun _ _ => False) h := by
  rintro a h' ⟨hk, hg⟩
  refine ⟨trivial, ?_⟩
  cases hg with
  | meminfo hsize =>
    cases hk with
    | meminfo hshown hi => exact hread _ _ hshown hsize hi

theorem gives_resize {name : String} {target : ℤ} (hle : (h.total : ℤ) ≤ target) :
    (task name (resize target)).wp (Generous size) (fun _ => True)
      (fun _ h' => (h'.total : ℤ) = target ∧ h'.committed size ≤ h.committed size) (fun _ _ => False) h := by
  have hask : (resize target).wp (Generous size) (fun _ => True)
      (fun ok h' => ok = true ∧ (h'.total : ℤ) = target ∧ h'.committed size ≤ h.committed size)
      (fun _ _ => False) h := by
    rintro ok h' ⟨hk, hg⟩
    cases hg with
    | resize htotal =>
      cases hk with
      | resize hr hi => exact ⟨trivial, rfl, htotal hle, hi.committed.trans hr.committed.le⟩
  refine (wp_must _ _ _ _ _).mpr (wp_mono (fun ok h' hleft => ?_) (fun _ _ hno => hno) _ _ hask)
  rw [if_pos hleft.1]
  exact hleft.2

/-- The tasks that retry are left out. -/
theorem wp_reserve_gives (hpos : 0 < needed) : (reservePlay needed).wp (Generous size) (fun _ => True)
    (fun _ h' => Exact size needed h h') (fun _ _ => False) h := by
  unfold reservePlay
  rw [wp_bind, require, if_pos hpos, wp_pure, wp_bind]
  refine gives_slurp fun hp₁ h₁ hshown₁ hsize₁ hi₁ => ?_
  rw [wp_bind, require, if_pos hsize₁, wp_pure]
  have htarget : ((hp₁.total : ℤ) - hp₁.available + needed) = h.committed size + needed := by
    rw [hshown₁.total, hshown₁.available, Host.available]
    omega
  dsimp only
  rw [htarget]
  refine wp_then (P := fun _ h' => Exact size needed h h') ?_ fun _ h₂ hexact => ?_
  · rw [onlyWhen]
    split
    · rename_i hless
      rw [hshown₁.available, Host.available] at hless
      have hle : (h₁.total : ℤ) ≤ h.committed size + needed := by
        rw [hi₁.total]
        omega
      refine wp_mono (fun _ h₂ hleft => ⟨?_, ?_⟩) (fun _ _ hno => hno) _ _ (gives_resize hle)
      · have hc := hleft.2.trans hi₁.committed
        rw [Host.available, hleft.1]
        omega
      · rw [hleft.1]
        exact le_max_right _ _
    · rename_i hless
      rw [hshown₁.available, not_lt] at hless
      exact ⟨hless.trans hi₁.available, hi₁.total.symm ▸ le_max_left _ _⟩
  rw [wp_bind]
  refine gives_slurp fun hp₃ h₃ hshown₃ _ hi₃ => ?_
  have henough : ¬ hp₃.available < needed := by
    rw [hshown₃.available, not_lt]
    exact hexact.enough
  rw [onlyWhen, if_neg henough, wp_bind, wp_pure, onlyWhen, if_neg henough, wp_bind, wp_pure, wp_bind]
  refine gives_slurp fun hp₆ h₆ hshown₆ _ hi₆ => ?_
  have hexact₃ := hexact.idles hi₃
  rw [require, if_pos (hshown₆.available ▸ hexact₃.enough)]
  exact hexact₃.idles hi₆

end

theorem wp_reserveHugepages_gives {toBoot : List Str} (hlever : hugepagesEnabled topo.toTopology = some true)
    (hsized : ∀ g ∈ toBoot, bootPages topo g = some (size g)) :
    (reserveHugepages topo toBoot).wp (Generous size) (fun _ => True)
      (fun _ h' => (h'.total : ℤ) ≤ max (h.total : ℤ) (h.committed size + (((toBoot.map size).sum : ℕ) + marginPages)))
      (fun _ _ => False) h := by
  unfold reserveHugepages
  rw [hlever]
  dsimp only
  by_cases hnil : toBoot = []
  · rw [hnil]
    exact le_max_left _ _
  rw [neededPages_eq hnil hsized, wp_bind, wp_sized]
  generalize hneeded : (((toBoot.map size).sum : ℕ) : ℤ) + marginPages = needed
  have hpos : 1 ≤ needed := by
    rw [← hneeded, marginPages]
    omega
  rw [if_neg (by omega), wp_bind]
  refine gives_slurp fun _ h₁ _ _ hi₁ => ?_
  rw [wp_bind, onlyWhen, if_neg (by omega), wp_pure]
  refine wp_then (wp_reserve_gives (by omega)) fun _ h₂ hexact => ?_
  rw [wp_bind]
  refine gives_slurp fun _ h₃ _ _ hi₃ => ?_
  have hc : h₁.committed size ≤ h.committed size := hi₁.committed
  have htotal := hexact.total
  rw [hi₁.total] at htotal
  rw [wp_pure, hi₃.total]
  omega

/-! ### A host -/

/-- A kernel that has what is asked for. -/
def kindly (size : Str → ℕ) (h : Host) : (c : Cmd) → Ans c × Host
  | .meminfo => (some ⟨h.total, h.total, h.committed size, pageKib⟩, h)
  | .resize target => (true, { h with total := max target.toNat (min h.total (h.committed size)) })
  | .sync => (true, h)
  | .reclaim target => (true, { h with total := max target.toNat (min h.total (h.committed size)) })

theorem resized_kindly (size : Str → ℕ) (h : Host) (target : ℤ) :
    Resized size target h { h with total := max target.toNat (min h.total (h.committed size)) } where
  live := rfl
  foreign := rfl
  grow hle := by constructor <;> simp only <;> omega
  shrink hle := by constructor <;> simp only <;> omega
  sound hs := by
    have hc : ∀ t, ({ h with total := t } : Host).committed size = h.committed size := fun _ => rfl
    unfold Host.Sound at hs ⊢
    rw [hc]
    simp only
    omega

theorem generous_kindly (size : Str → ℕ) (h : Host) (c : Cmd) :
    Generous size h c (kindly size h c).1 (kindly size h c).2 := by
  have hgives : ∀ target : ℤ, (h.total : ℤ) ≤ target →
      ((max target.toNat (min h.total (h.committed size)) : ℕ) : ℤ) = target := by
    intro target hle
    omega
  cases c with
  | meminfo => exact ⟨.meminfo ⟨rfl, rfl⟩ (.refl h), .meminfo rfl⟩
  | resize target => exact ⟨.resize (resized_kindly size h target) (.refl _), .resize (hgives target)⟩
  | sync => exact ⟨.sync (.refl h), .sync⟩
  | reclaim target => exact ⟨.reclaim (resized_kindly size h target) (.refl _), .reclaim (hgives target)⟩

def macLab : Sized where
  nodes := .ofList [("obs".toList, ⟨some "obs".toList⟩), ("ca".toList, ⟨some "ubuntu".toList⟩)]
  groups := .ofList [("obs".toList, ["obs".toList]), ("pki".toList, ["ca".toList])]
  labStacks := .empty
  commons := ["pki".toList]
  memoryBacking := some "hugepages".toList
  sizing := .ofList [("obs".toList, ⟨some (.int 12), some (.int 10240)⟩), ("ca".toList, ⟨none, none⟩)]
  defaults := ⟨some (.int 1), some (.int 1024)⟩

def macGuests : List Str := ["obs".toList, "ca".toList]

def macSize (g : Str) : ℕ := if g = "obs".toList then 5120 else 512

theorem macLab_lever : hugepagesEnabled macLab.toTopology = some true := by decide +kernel

theorem macLab_sized : ∀ g ∈ macGuests, bootPages macLab g = some (macSize g) := by decide +kernel

/-- Others hold all of its pool. -/
def macHost : Host := ⟨64, ∅, 64⟩

theorem macHost_sound : macHost.Sound macSize := le_rfl

/-- A reservation that was cut off after the pool had grown. -/
def cutOff : Cfg Host Cmd Ans Failure Unit := (reserveHugepages macLab macGuests).execFor (kindly macSize) 3 macHost

/-- **A reservation resumes**: wherever one was cut off, the pool was not lowered and
no guest lost its pages, and the next one, if the kernel has what is asked for,
returns, with room for its guests in no larger a pool than that takes. -/
theorem reservation_resumes {toBoot : List Str} {p : Play Unit} {f : (h : Host) → (c : Cmd) → Ans c × Host}
    (hs : h.Sound size) (hlever : hugepagesEnabled topo.toTopology = some true)
    (hsized : ∀ g ∈ toBoot, bootPages topo g = some (size g))
    (hcut : Reach (Kernel size) (reserveHugepages topo toBoot, h) (p, h'))
    (hgives : ∀ s c, Generous size s c (f s c).1 (f s c).2) :
    (h.total ≤ h'.total ∧ h'.Sound size) ∧
      ∃ h'', (reserveHugepages topo toBoot).exec f h' = (.ret (), h'') ∧
        (toBoot ≠ [] → Room size toBoot.toFinset h'') ∧
        (h''.total : ℤ) ≤ max (h'.total : ℤ) (h'.committed size + (((toBoot.map size).sum : ℕ) + marginPages)) := by
  have hkept : Kept size h h' := (wp_reach hcut (kept_refl hs) (wp_reserveHugepages hlever hsized (kept_refl hs))).1
  obtain ⟨⟨⟩, h'', hexec, htotal⟩ := (ends_reserveHugepages topo toBoot).exec hgives h'
    (wp_reserveHugepages_gives hlever hsized)
  have hrun : Reach (Kernel size) (reserveHugepages topo toBoot, h') (.ret (), h'') := by
    rw [← hexec]
    exact reach_exec (J := fun _ => True) (fun s c _ => ⟨(hgives s c).1, trivial⟩) _ _ trivial
  exact ⟨⟨hkept.total, hkept.sound⟩, h'', hexec, room_of_reserved hkept.sound hlever hsized hrun, htotal⟩

theorem macLab_resumes : (macHost.total ≤ cutOff.2.total ∧ cutOff.2.Sound macSize) ∧
    ∃ h'', (reserveHugepages macLab macGuests).exec (kindly macSize) cutOff.2 = (.ret (), h'') ∧
      (macGuests ≠ [] → Room macSize macGuests.toFinset h'') ∧
      (h''.total : ℤ) ≤
        max (cutOff.2.total : ℤ) (cutOff.2.committed macSize + (((macGuests.map macSize).sum : ℕ) + marginPages)) :=
  reservation_resumes (p := cutOff.1) macHost_sound macLab_lever macLab_sized
    (reach_execFor (fun s c => (generous_kindly macSize s c).1) 3 _ macHost) (generous_kindly macSize)

/-! ### The states of the host -/

/-- A release that returns leaves no pages. -/
theorem wp_releasePlay (hs : h.Sound size) : releasePlay.wp (Kernel size) (Host.Sound size)
    (fun _ h' => h'.Sound size ∧ h'.total = 0) (fun _ h' => h'.Sound size) h := by
  have hread : ∀ {Q : Meminfo → Host → Prop} {f : Failure} {h : Host}, h.Sound size →
      (∀ hp h', Shown size h hp → Idles h h' → h'.Sound size → Q hp h') →
      (slurp f).wp (Kernel size) (Host.Sound size) Q (fun _ h' => h'.Sound size) h := by
    intro Q f h hs hread a h' hk
    cases hk with
    | meminfo hshown hi => exact ⟨hi.sound hs, hread _ _ hshown hi (hi.sound hs)⟩
    | noCounters hi => exact ⟨hi.sound hs, hi.sound hs⟩
  have hresize : ∀ {h : Host}, h.Sound size →
      (resize 0).wp (Kernel size) (Host.Sound size) (fun _ h' => h'.Sound size) (fun _ _ => False) h := by
    intro h hs ok h' hk
    cases hk with
    | resize hr hi => exact ⟨hi.sound (hr.sound hs), hi.sound (hr.sound hs)⟩
  unfold releasePlay
  rw [wp_bind]
  refine hread hs fun hp₁ h₁ _ _ hs₁ => ?_
  rw [wp_bind, require]
  split
  · rw [wp_pure, wp_bind]
    refine (wp_must _ _ _ _ _).mpr (wp_mono (fun ok h₂ hs₂ => ?_) (fun _ _ hno => hno.elim) _ _ (hresize hs₁))
    cases ok
    · exact hs₂
    · rw [if_pos rfl, wp_bind]
      refine hread hs₂ fun hp₃ h₃ hshown hi₃ hs₃ => ?_
      rw [require]
      split
      · rename_i hzero
        exact ⟨hs₃, hi₃.total.trans (hshown.total.symm.trans hzero)⟩
      · exact hs₃
  · exact hs₁

/-- The states of the host over any number of reservations, boots and releases,
each cut off anywhere. After a reservation that returned its guests boot; any
guest may stop at any time. -/
inductive Reached (size : Str → ℕ) : Host → Prop where
  | first {h : Host} : h.Sound size → Reached size h
  | idle {h h' : Host} : Reached size h → Idles h h' → Reached size h'
  | reserving {h h' : Host} {needed : ℤ} {p : Play Unit} : Reached size h →
      Reach (Kernel size) (reservePlay needed, h) (p, h') → Reached size h'
  | bringUp {h h' : Host} {topo : Sized} {toBoot : List Str} {evs : List Event} : Reached size h →
      hugepagesEnabled topo.toTopology = some true → (∀ g ∈ toBoot, bootPages topo g = some (size g)) →
      Reach (Kernel size) (reserveHugepages topo toBoot, h) (.ret (), h') → (∀ g, .boot g ∈ evs → g ∈ toBoot) →
      Reached size (evs.foldl Host.after h')
  | releasing {h h' : Host} {p : Play Unit} : Reached size h → Reach (Kernel size) (releasePlay, h) (p, h') →
      Reached size h'

/-- **In no state do guests hold more than the pool.** -/
theorem sound_reached (hr : Reached size h) : h.Sound size := by
  induction hr with
  | first hs => exact hs
  | idle _ hi hs => exact hi.sound hs
  | reserving _ hrun hs => exact (wp_reach hrun (kept_refl hs) (wp_reservePlay (kept_refl hs))).1.sound
  | @bringUp h h' topo toBoot evs _ hlever hsized hrun hboot hs =>
    by_cases hnil : toBoot = []
    · subst hnil
      -- nothing boots
      have hs' := (wp_reach hrun (kept_refl hs) (wp_reserveHugepages hlever hsized (kept_refl hs))).1.sound
      clear hrun hsized
      induction evs generalizing h' with
      | nil => exact hs'
      | cons ev evs ih =>
        refine ih (fun g hg => hboot g (List.mem_cons_of_mem ev hg)) ?_
        cases ev with
        | boot g => exact absurd (hboot g List.mem_cons_self) (by simp)
        | stop g =>
          have hi : Idles h' (h'.after (.stop g)) := ⟨rfl, Finset.erase_subset g h'.live, le_rfl⟩
          exact hi.sound hs'
    · have hroom := room_of_reserved hs hlever hsized hrun hnil
      exact (hroom.afterAll fun g hg => List.mem_toFinset.mpr (hboot g hg)).sound
  | releasing _ hrun hs => exact (wp_reach hrun hs (wp_releasePlay hs)).1

/-- **Each guest finds its pages**: from any state, after a reservation that returned
and in whatever order its guests boot and others stop. -/
theorem guests_find_pages {toBoot : List Str} {evs : List Event} {g : Str} (hr : Reached size h)
    (hlever : hugepagesEnabled topo.toTopology = some true) (hsized : ∀ g ∈ toBoot, bootPages topo g = some (size g))
    (hrun : Reach (Kernel size) (reserveHugepages topo toBoot, h) (.ret (), h'))
    (hboot : ∀ x, .boot x ∈ evs → x ∈ toBoot) (hg : g ∈ toBoot) :
    g ∈ (evs.foldl Host.after h').live ∨ (size g : ℤ) + marginPages ≤ (evs.foldl Host.after h').available size := by
  have hroom := room_of_reserved (sound_reached hr) hlever hsized hrun (List.ne_nil_of_mem hg)
  have hroom' : Room size toBoot.toFinset (evs.foldl Host.after h') :=
    hroom.afterAll fun x hx => List.mem_toFinset.mpr (hboot x hx)
  by_cases hlive : g ∈ (evs.foldl Host.after h').live
  · exact .inl hlive
  · exact .inr (hroom'.fits (List.mem_toFinset.mpr hg) hlive)

theorem macLab_fits : ∃ h', Reach (Kernel macSize) (reserveHugepages macLab macGuests, macHost) (.ret (), h') ∧
    ("obs".toList ∈ ([Event.boot "ca".toList, .stop "ca".toList].foldl Host.after h').live ∨
      (macSize "obs".toList : ℤ) + marginPages ≤
        ([Event.boot "ca".toList, .stop "ca".toList].foldl Host.after h').available macSize) := by
  obtain ⟨⟨⟩, h', hexec, -⟩ := (ends_reserveHugepages macLab macGuests).exec (generous_kindly macSize) macHost
    (wp_reserveHugepages_gives macLab_lever macLab_sized)
  have hrun : Reach (Kernel macSize) (reserveHugepages macLab macGuests, macHost) (.ret (), h') := by
    rw [← hexec]
    exact reach_exec (J := fun _ => True) (fun s c _ => ⟨(generous_kindly macSize s c).1, trivial⟩) _ _ trivial
  refine ⟨h', hrun, ?_⟩
  refine guests_find_pages (.first macHost_sound) macLab_lever macLab_sized hrun (fun x hx => ?_) (by simp [macGuests])
  simp only [List.mem_cons, Event.boot.injEq, reduceCtorEq, List.not_mem_nil, or_false] at hx
  simp [macGuests, hx]

end Hugepages
end MqResiliency
