/-
# Collecting orphaned images is safe and exact

Which images are `Stale` is a matter of names: the box is retired or dead, or
its registered image is another, or there is a newer one. The pass keeps the
images that are not stale, deletes those that are, and skips the ones in use
(`Swept.outcome`); a run deletes what a dry run reports (`gcRun_follows`).

Whether an image is in use the pass reads from the volumes' XML without
decoding it, so it misses a file name that XML writes with an entity
(`gc_exact_iff`).
-/
import Mathlib.Algebra.Ring.Int.Defs
import Mathlib.Data.Char
import Mathlib.Data.List.Lex
import Mathlib.Data.List.Perm.Basic
import MqResiliency.Lab.BoxGc

namespace MqResiliency
namespace Lab
namespace BoxGc

open Py Prog

/-! ### The order of images -/

theorem strLe_iff {s t : Str} : strLe s t = true ↔ s ≤ t := by
  unfold strLe
  simp

theorem imageLe_iff {a b : ℤ × Str} : imageLe a b = true ↔ a.1 < b.1 ∨ a.1 = b.1 ∧ a.2 ≤ b.2 := by
  simp [imageLe, strLe_iff]

theorem imageLe_total (a b : ℤ × Str) : imageLe a b = true ∨ imageLe b a = true := by
  rw [imageLe_iff, imageLe_iff]
  rcases lt_trichotomy a.1 b.1 with h | h | h
  · exact .inl (.inl h)
  · rcases le_total a.2 b.2 with h' | h'
    · exact .inl (.inr ⟨h, h'⟩)
    · exact .inr (.inr ⟨h.symm, h'⟩)
  · exact .inr (.inl h)

theorem imageLe_trans {a b c : ℤ × Str} (hab : imageLe a b = true) (hbc : imageLe b c = true) :
    imageLe a c = true := by
  rw [imageLe_iff] at *
  rcases hab with hab | ⟨hab, hab'⟩
  · rcases hbc with hbc | ⟨hbc, -⟩
    · exact .inl (hab.trans hbc)
    · exact .inl (hbc ▸ hab)
  · rcases hbc with hbc | ⟨hbc, hbc'⟩
    · exact .inl (hab ▸ hbc)
    · exact .inr ⟨hab.trans hbc, hab'.trans hbc'⟩

theorem imageLe_antisymm {a b : ℤ × Str} (hab : imageLe a b = true) (hba : imageLe b a = true) : a = b := by
  rw [imageLe_iff] at hab hba
  rcases hab with hab | ⟨hab, hab'⟩
  · rcases hba with hba | ⟨hba, -⟩ <;> omega
  · rcases hba with hba | ⟨-, hba'⟩
    · omega
    · exact Prod.ext hab (le_antisymm hab' hba')

theorem mem_sortedImages {images : List (ℤ × Str)} {i : ℤ × Str} : i ∈ sortedImages images ↔ i ∈ images :=
  List.mem_insertionSort _

/-- The last of the sorted images is the newest. -/
theorem le_getLast_sortedImages {images : List (ℤ × Str)} {l : ℤ × Str}
    (hl : (sortedImages images).getLast? = some l) {i : ℤ × Str} (hi : i ∈ images) : imageLe i l = true := by
  have htotal : Std.Total fun a b : ℤ × Str => imageLe a b = true := ⟨imageLe_total⟩
  have htrans : IsTrans (ℤ × Str) fun a b => imageLe a b = true := ⟨fun _ _ _ => imageLe_trans⟩
  have hsorted : (sortedImages images).Pairwise fun a b => imageLe a b = true := List.pairwise_insertionSort _ _
  obtain ⟨front, hfront⟩ := List.getLast?_eq_some_iff.mp hl
  have hmem : i ∈ front ++ [l] := hfront ▸ mem_sortedImages.mpr hi
  rw [hfront, List.pairwise_append] at hsorted
  rcases List.mem_append.mp hmem with hi' | hi'
  · exact hsorted.2.2 i hi' l List.mem_cons_self
  · obtain rfl := List.mem_singleton.mp hi'
    rcases imageLe_total i i with h | h <;> exact h

/-! ### The images of a scan -/

/-- The order of two images of one box: the second is newer. -/
def Newer (n n' : Str) : Prop :=
  ∃ stem ds ds' ts ts', boxImage n = some (stem, ds) ∧ boxImage n' = some (stem, ds') ∧ int ds = some ts ∧
    int ds' = some ts' ∧ imageLe (ts, n) (ts', n') = true ∧ n ≠ n'

/-- No box needs the image: it is not among those that its box keeps. -/
def Stale (dead : List Str) (current : Dict Str (List Str)) (images : List Str) (n : Str) : Prop :=
  ∃ stem ds, boxImage n = some (stem, ds) ∧ (stem ∈ dead ∨
    (∃ volumes, current.get? stem = some volumes ∧ n ∉ volumes) ∨
    (current.get? stem = none ∧ ∃ n' ∈ images, Newer n n'))

/-- The images, grouped: each is under its stem with its timestamp. -/
structure Grouped (names : List Str) (imgs : Images) : Prop where
  perm : (imgs.items.flatMap fun s => s.2.map Prod.snd).Perm (names.filter fun n => (boxImage n).isSome)
  own : ∀ stem images, imgs.get? stem = some images → ∀ i ∈ images, i.2 ∈ names ∧
    ∃ ds, boxImage i.2 = some (stem, ds) ∧ int ds = some i.1
  stems : ∀ stem ∈ imgs.keys, ∃ n ∈ names, ∃ ds, boxImage n = some (stem, ds)

theorem grouped_empty : Grouped [] .empty where
  perm := .nil
  own := fun stem images h => absurd h (by simp)
  stems := fun stem h => absurd h (by simp [Dict.keys, Dict.empty])

theorem Grouped.push {names : List Str} {imgs : Images} (h : Grouped names imgs) {name stem ds : Str} {ts : ℤ}
    (hname : boxImage name = some (stem, ds)) (hts : int ds = some ts) :
    Grouped (names ++ [name]) (imgs.push stem (ts, name)) := by
  constructor
  · have hperm := (Dict.perm_push imgs stem (ts, name)).map Prod.snd
    rw [List.map_append, List.map_flatMap, List.map_flatMap] at hperm
    rw [List.filter_append, List.filter_singleton, hname]
    exact hperm.trans (h.perm.append_right [name])
  · intro stem' images hget i hi
    rw [Dict.get?_push] at hget
    have hold : ∀ images, imgs.get? stem' = some images → i ∈ images → i.2 ∈ names ++ [name] ∧
        ∃ ds, boxImage i.2 = some (stem', ds) ∧ int ds = some i.1 := by
      intro images himages hi
      obtain ⟨hmem, hrest⟩ := h.own stem' images himages i hi
      exact ⟨List.mem_append_left _ hmem, hrest⟩
    split at hget
    · rename_i heq
      obtain rfl : _ = images := by simpa using hget
      rcases List.mem_append.mp hi with hi | hi
      · cases himgs : imgs.get? stem with
        | none => simp [himgs] at hi
        | some images => exact hold images (heq ▸ himgs) (by simpa [himgs] using hi)
      · obtain rfl := List.mem_singleton.mp hi
        exact ⟨by simp, ds, heq ▸ hname, hts⟩
    · exact hold images hget hi
  · intro stem' hkey
    rcases Dict.mem_keys_set.mp hkey with rfl | hkey
    · exact ⟨name, by simp, ds, hname⟩
    · obtain ⟨n, hn, hrest⟩ := h.stems stem' hkey
      exact ⟨n, List.mem_append_left _ hn, hrest⟩

theorem Grouped.skip {names : List Str} {imgs : Images} (h : Grouped names imgs) {name : Str}
    (hname : boxImage name = none) : Grouped (names ++ [name]) imgs := by
  constructor
  · rw [List.filter_append, List.filter_singleton, hname]
    simpa using h.perm
  · intro stem images hget i hi
    obtain ⟨hmem, hrest⟩ := h.own stem images hget i hi
    exact ⟨List.mem_append_left _ hmem, hrest⟩
  · intro stem hkey
    obtain ⟨n, hn, hrest⟩ := h.stems stem hkey
    exact ⟨n, List.mem_append_left _ hn, hrest⟩

/-- The grouping asks for nothing. -/
theorem boxImagesFrom_eq : ∀ (names done : List Str) (out : Images), Grouped done out →
    (∃ imgs, boxImagesFrom out names = pure imgs ∧ Grouped (done ++ names) imgs) ∨
      boxImagesFrom out names = throw (.failed .valueError)
  | [], done, out, h => .inl ⟨out, rfl, by simpa using h⟩
  | name :: names, done, out, h => by
    unfold boxImagesFrom
    split
    · rename_i stem ds hname
      unfold intOf
      split
      · rename_i ts hts
        have hrest := boxImagesFrom_eq names _ _ (h.push hname hts)
        rw [List.append_assoc] at hrest
        exact hrest
      · exact .inr rfl
    · rename_i hname
      have hrest := boxImagesFrom_eq names _ _ (h.skip hname)
      rw [List.append_assoc] at hrest
      exact hrest

section
variable {names : List Str} {imgs : Images} (h : Grouped names imgs) (dead : List Str)
  (current : Dict Str (List Str))
include h

/-- An image is in the group of its stem. -/
theorem Grouped.mem_of_boxImage {stem ds n : Str} {ts : ℤ} {images : List (ℤ × Str)}
    (himages : imgs.get? stem = some images) (hn : n ∈ names) (hname : boxImage n = some (stem, ds))
    (hts : int ds = some ts) : (ts, n) ∈ images := by
  have hmem : n ∈ names.filter fun n => (boxImage n).isSome := List.mem_filter.mpr ⟨hn, by rw [hname]; rfl⟩
  obtain ⟨⟨stem', images'⟩, hitem, hi⟩ := List.mem_flatMap.mp (h.perm.mem_iff.mpr hmem)
  obtain ⟨i, hi', rfl⟩ := List.mem_map.mp hi
  obtain ⟨-, ds', hname', hts'⟩ := h.own stem' images' (Dict.get?_eq_some.mpr hitem) i hi'
  obtain ⟨rfl, rfl⟩ : stem = stem' ∧ ds = ds' := by simpa [hname] using hname'
  have heq : images = images' := Option.some.inj (himages.symm.trans (Dict.get?_eq_some.mpr hitem))
  have htime : ts = i.1 := Option.some.inj (hts.symm.trans hts')
  rw [heq, htime]
  exact hi'

/-- What the pass does not keep is stale. -/
theorem Grouped.not_mem_keepOf {stem : Str} {images : List (ℤ × Str)} (himages : imgs.get? stem = some images)
    {i : ℤ × Str} (hi : i ∈ images) :
    i.2 ∉ keepOf dead current stem (sortedImages images) ↔ Stale dead current names i.2 := by
  obtain ⟨hmem, ds, hname, hts⟩ := h.own stem images himages i hi
  have hstale : Stale dead current names i.2 ↔ stem ∈ dead ∨
      (∃ volumes, current.get? stem = some volumes ∧ i.2 ∉ volumes) ∨
      (current.get? stem = none ∧ ∃ n' ∈ names, Newer i.2 n') := by
    constructor
    · rintro ⟨stem', ds', hname', hrest⟩
      obtain ⟨rfl, rfl⟩ : stem = stem' ∧ ds = ds' := by simpa [hname] using hname'
      exact hrest
    · exact fun hrest => ⟨stem, ds, hname, hrest⟩
  rw [hstale, keepOf]
  by_cases hdead : stem ∈ dead
  · simp [hdead]
  · rw [if_neg hdead]
    cases hcur : current.get? stem with
    | some volumes =>
      have hin : i.2 ∈ (sortedImages images).map Prod.snd := List.mem_map_of_mem (mem_sortedImages.mpr hi)
      simp [hdead, List.mem_filter, hin]
    | none =>
      have hne : sortedImages images ≠ [] := List.ne_nil_of_mem (mem_sortedImages.mpr hi)
      obtain ⟨l, hl⟩ : ∃ l, (sortedImages images).getLast? = some l := ⟨_, List.getLast?_eq_some_getLast hne⟩
      have hlmem : l ∈ images := mem_sortedImages.mp (List.mem_of_getLast? hl)
      obtain ⟨hln, dl, hlname, hlts⟩ := h.own stem images himages l hlmem
      have hle := le_getLast_sortedImages hl hi
      simp only [hl, Option.map_some, Option.toList_some, List.mem_singleton, hdead, reduceCtorEq, false_and,
        exists_false, true_and, false_or]
      constructor
      · intro hneq
        exact ⟨l.2, hln, stem, ds, dl, i.1, l.1, hname, hlname, hts, hlts, hle, hneq⟩
      · rintro ⟨n', hn', stem', ds₁, ds₂, ts₁, ts₂, hname₁, hname₂, hts₁, hts₂, hle', hneq⟩ heq
        obtain ⟨rfl, rfl⟩ : stem = stem' ∧ ds = ds₁ := by simpa [hname] using hname₁
        obtain rfl : i.1 = ts₁ := Option.some.inj (hts.symm.trans hts₁)
        -- The newer image is not newer than the last, so it is the last.
        have hback := le_getLast_sortedImages hl (h.mem_of_boxImage himages hn' hname₂ hts₂)
        have hdl : dl = ds := by
          rw [← heq, hname] at hlname
          simpa using hlname.symm
        have htime : l.1 = i.1 := Option.some.inj (hlts.symm.trans (hdl ▸ hts))
        have hil : i = l := Prod.ext htime.symm heq
        have hlast := imageLe_antisymm hle' (hil ▸ hback)
        exact hneq (congrArg Prod.snd hlast)

end

/-! ### The outcome -/

/-- The allocation that the scan read. -/
def PoolScan.allocOf (scan : PoolScan) (n : Str) : ℤ := (scan.alloc.get? n).getD 0

section
variable (pool : Str) (scan : PoolScan) (dead : List Str) (current : Dict Str (List Str))

/-- What the pass makes of the images of one box. -/
def sweep (keep : List Str) (acc : GcResult) (names : List Str) : GcResult :=
  let gone := names.filter fun n => n ∉ keep ∧ n ∉ scan.inUse
  { acc with
    kept := acc.kept ++ names.filter (· ∈ keep)
    skippedInUse := acc.skippedInUse ++ names.filter fun n => n ∉ keep ∧ n ∈ scan.inUse
    deleted := acc.deleted ++ gone
    freedBytes := acc.freedBytes + (gone.map scan.allocOf).sum }

/-- And of those of every box. -/
def sweepAll (acc : GcResult) : List (Str × List (ℤ × Str)) → GcResult
  | [] => acc
  | (stem, images) :: stems =>
    sweepAll (sweep scan (keepOf dead current stem (sortedImages images)) acc ((sortedImages images).map Prod.snd))
      stems

theorem sweep_nil (keep : List Str) (acc : GcResult) : sweep scan keep acc [] = acc := by
  simp [sweep]

theorem sweep_cons (keep : List Str) (acc : GcResult) (n : Str) (names : List Str) :
    sweep scan keep acc (n :: names) = sweep scan keep (sweep scan keep acc [n]) names := by
  by_cases hk : n ∈ keep
  · simp [sweep, hk]
  · by_cases hu : n ∈ scan.inUse
    · simp [sweep, hk, hu]
    · simp [sweep, hk, hu, Int.add_assoc]

theorem gcImages_dry (keep : List Str) : ∀ (images : List (ℤ × Str)) (acc : GcResult),
    gcImages true pool scan keep acc images = pure (sweep scan keep acc (images.map Prod.snd))
  | [], acc => by rw [List.map_nil, sweep_nil]; rfl
  | (ts, n) :: images, acc => by
    rw [List.map_cons, sweep_cons]
    unfold gcImages
    split
    · rename_i hkeep
      rw [gcImages_dry keep images]
      simp [sweep, hkeep]
    · rename_i hkeep
      split
      · rename_i huse
        rw [gcImages_dry keep images]
        simp [sweep, hkeep, huse]
      · rename_i huse
        show gcImages true pool scan keep _ images = _
        rw [gcImages_dry keep images]
        simp [sweep, hkeep, huse, PoolScan.allocOf]

theorem gcStems_dry : ∀ (stems : List (Str × List (ℤ × Str))) (acc : GcResult),
    gcStems true pool scan dead current acc stems = pure (sweepAll scan dead current acc stems)
  | [], acc => rfl
  | (stem, images) :: stems, acc => by
    rw [gcStems, gcImages_dry]
    exact gcStems_dry stems _

/-- What the pass has made of the boxes `done`. -/
structure Swept (done : List (Str × List (ℤ × Str))) (r : GcResult) : Prop where
  perm : (r.deleted ++ r.kept ++ r.skippedInUse).Perm (done.flatMap fun s => (sortedImages s.2).map Prod.snd)
  deleted : ∀ n, n ∈ r.deleted ↔ ∃ s ∈ done, n ∈ (sortedImages s.2).map Prod.snd ∧
    n ∉ keepOf dead current s.1 (sortedImages s.2) ∧ n ∉ scan.inUse
  freed : r.freedBytes = (r.deleted.map scan.allocOf).sum

theorem perm_filter3 (p q : Str → Bool) (names : List Str) :
    (names.filter (fun n => !p n && !q n) ++ names.filter p ++ names.filter fun n => !p n && q n).Perm names := by
  rw [List.perm_iff_count]
  intro a
  induction names with
  | nil => rfl
  | cons n names ih =>
    simp only [List.count_append] at ih
    by_cases hp : p n = true
    · simp [hp, List.count_append, List.count_cons]
      omega
    · by_cases hq : q n = true
      · simp [hp, hq, List.count_append, List.count_cons]
        omega
      · simp [hp, hq, List.count_append, List.count_cons]
        omega

variable {scan dead current}

theorem Swept.step {done : List (Str × List (ℤ × Str))} {r : GcResult} (h : Swept scan dead current done r)
    (s : Str × List (ℤ × Str)) :
    Swept scan dead current (done ++ [s])
      (sweep scan (keepOf dead current s.1 (sortedImages s.2)) r ((sortedImages s.2).map Prod.snd)) := by
  have hfilter := perm_filter3 (fun n => decide (n ∈ keepOf dead current s.1 (sortedImages s.2)))
    (fun n => decide (n ∈ scan.inUse)) ((sortedImages s.2).map Prod.snd)
  constructor
  · rw [List.flatMap_append, List.flatMap_singleton, List.perm_iff_count]
    intro a
    have hold := h.perm.count_eq a
    have hnew := hfilter.count_eq a
    simp only [List.count_append] at hold hnew ⊢
    simp only [sweep, List.count_append, Bool.decide_and, decide_not]
    omega
  · intro n
    simp only [sweep, List.mem_append, h.deleted, List.mem_filter, decide_eq_true_eq]
    constructor
    · rintro (⟨s', hs', hrest⟩ | hrest)
      · exact ⟨s', .inl hs', hrest⟩
      · exact ⟨s, .inr List.mem_cons_self, hrest⟩
    · rintro ⟨s', hs' | hs', hrest⟩
      · exact .inl ⟨s', hs', hrest⟩
      · obtain rfl := List.mem_singleton.mp hs'
        exact .inr hrest
  · simp only [sweep, List.map_append, List.sum_append, h.freed]

theorem Swept.all {r : GcResult} : ∀ {stems done : List (Str × List (ℤ × Str))}, Swept scan dead current done r →
    Swept scan dead current (done ++ stems) (sweepAll scan dead current r stems) := by
  intro stems
  induction stems generalizing r with
  | nil => exact fun {done} h => by simpa [sweepAll] using h
  | cons s stems ih =>
    intro done h
    have hstep := ih (h.step s)
    rw [List.append_assoc] at hstep
    exact hstep

theorem prefix_sweepAll : ∀ (stems : List (Str × List (ℤ × Str))) (acc : GcResult),
    acc.deleted <+: (sweepAll scan dead current acc stems).deleted
  | [], acc => List.prefix_refl _
  | (stem, images) :: stems, acc => by
    rw [sweepAll]
    have hfirst : acc.deleted <+: (sweep scan (keepOf dead current stem (sortedImages images)) acc
        ((sortedImages images).map Prod.snd)).deleted := List.prefix_append _ _
    exact hfirst.trans (prefix_sweepAll stems _)

theorem sweepAll_dryRun (b : Bool) : ∀ (stems : List (Str × List (ℤ × Str))) (acc : GcResult),
    sweepAll scan dead current { acc with dryRun := b } stems =
      { sweepAll scan dead current acc stems with dryRun := b }
  | [], acc => rfl
  | (stem, images) :: stems, acc => by
    rw [sweepAll, sweepAll, ← sweepAll_dryRun b stems]
    rfl

end

/-! ### The deletions of a run -/

/-- The volume that an exchange asked to delete. -/
def deletedBy : Exchange Cmd Ans → Option Str
  | ⟨.volDelete n _, _⟩ => some n
  | _ => none

/-- The deletions, in order. -/
def deletes (h : History Cmd Ans) : List Str := h.filterMap deletedBy

@[simp] theorem deletes_append (h h' : History Cmd Ans) : deletes (h ++ h') = deletes h ++ deletes h' :=
  List.filterMap_append

/-- A command that changes nothing. -/
def Cmd.Reads : Cmd → Prop
  | .volDelete _ _ => False
  | .boxRemove _ => False
  | .unlink _ => False
  | _ => True

theorem deletes_of_reads {es : History Cmd Ans} (h : ∀ e ∈ es, e.1.Reads) : deletes es = [] := by
  refine List.filterMap_eq_nil_iff.mpr fun e he => ?_
  have hreads := h e he
  obtain ⟨c, a⟩ := e
  cases c <;> first | rfl | exact hreads.elim

theorem deletes_run_of_issues {α : Type} (o : Oracle Cmd Ans) {p : Gc α} (hp : p.Issues Cmd.Reads)
    (h : History Cmd Ans) : deletes (p.run o h).1 = deletes h := by
  obtain ⟨es, hes, hreads⟩ := run_issues o h hp
  rw [hes, deletes_append, deletes_of_reads hreads, List.append_nil]

/-- A deletion is issued, and fails or not. -/
theorem volDelete_run (o : Oracle Cmd Ans) (n pool : Str) (h : History Cmd Ans) :
    (volDelete n pool).run o h = (h ++ [⟨.volDelete n pool, o h (.volDelete n pool)⟩], some (.ok ())) ∨
      ∃ e, (volDelete n pool).run o h = (h ++ [⟨.volDelete n pool, o h (.volDelete n pool)⟩], some (.error e)) := by
  unfold volDelete
  rw [run_bind, run_ask]
  dsimp only
  split
  · exact .inl rfl
  · exact .inr ⟨_, rfl⟩

section
variable (o : Oracle Cmd Ans) (pool : Str) (scan : PoolScan) (dead : List Str) (current : Dict Str (List Str))

/-- The run has deleted a part of what the plan has in it; all of it, if it returns the plan. -/
def Follows (acc plan : GcResult) (h : History Cmd Ans) (x : History Cmd Ans × Option (Except Halt GcResult)) :
    Prop :=
  ∃ ds, deletes x.1 = deletes h ++ ds ∧ acc.deleted ++ ds <+: plan.deleted ∧
    ∀ r, x.2 = some (.ok r) → r = plan ∧ acc.deleted ++ ds = plan.deleted

theorem gcImages_run (keep : List Str) : ∀ (images : List (ℤ × Str)) (acc : GcResult) (h : History Cmd Ans),
    Follows acc (sweep scan keep acc (images.map Prod.snd)) h ((gcImages false pool scan keep acc images).run o h)
  | [], acc, h => by
    rw [List.map_nil, sweep_nil]
    refine ⟨[], by simp [gcImages], by simp, fun r hr => ?_⟩
    obtain rfl : acc = r := by simpa [gcImages, run] using hr
    exact ⟨rfl, by simp⟩
  | (ts, n) :: images, acc, h => by
    rw [List.map_cons, sweep_cons]
    unfold gcImages
    split
    · rename_i hkeep
      have hsweep : sweep scan keep acc [n] = { acc with kept := acc.kept ++ [n] } := by simp [sweep, hkeep]
      rw [hsweep]
      exact gcImages_run keep images _ h
    · rename_i hkeep
      split
      · rename_i huse
        have hsweep : sweep scan keep acc [n] = { acc with skippedInUse := acc.skippedInUse ++ [n] } := by
          simp [sweep, hkeep, huse]
        rw [hsweep]
        exact gcImages_run keep images _ h
      · rename_i huse
        have hsweep : sweep scan keep acc [n] = { acc with
            deleted := acc.deleted ++ [n]
            freedBytes := acc.freedBytes + (scan.alloc.get? n).getD 0 } := by
          simp [sweep, hkeep, huse, PoolScan.allocOf]
        rw [hsweep]
        show Follows acc _ h ((volDelete n pool >>= fun _ => gcImages false pool scan keep _ images).run o h)
        rw [run_bind]
        rcases volDelete_run o n pool h with hrun | ⟨e, hrun⟩
        · obtain ⟨ds, hds, hpre, hret⟩ := gcImages_run keep images { acc with
            deleted := acc.deleted ++ [n]
            freedBytes := acc.freedBytes + (scan.alloc.get? n).getD 0 }
            (h ++ [⟨.volDelete n pool, o h (.volDelete n pool)⟩])
          rw [hrun]
          refine ⟨n :: ds, ?_, ?_, fun r hr => ?_⟩
          · rw [hds, deletes_append, List.append_assoc]
            rfl
          · simpa using hpre
          · simpa using hret r hr
        · rw [hrun]
          refine ⟨[n], by simp [deletes, deletedBy], ?_, fun r hr => absurd hr (by simp)⟩
          exact List.prefix_append _ _

theorem gcStems_run : ∀ (stems : List (Str × List (ℤ × Str))) (acc : GcResult) (h : History Cmd Ans),
    Follows acc (sweepAll scan dead current acc stems) h
      ((gcStems false pool scan dead current acc stems).run o h)
  | [], acc, h => by
    refine ⟨[], by simp [gcStems], by simp [sweepAll], fun r hr => ?_⟩
    obtain rfl : acc = r := by simpa [gcStems, run] using hr
    exact ⟨rfl, by simp [sweepAll]⟩
  | (stem, images) :: stems, acc, h => by
    obtain ⟨ds, hds, hpre, hret⟩ := gcImages_run o pool scan (keepOf dead current stem (sortedImages images))
      (sortedImages images) acc h
    rw [gcStems, run_bind, sweepAll]
    generalize (gcImages false pool scan (keepOf dead current stem (sortedImages images)) acc
      (sortedImages images)).run o h = x at hds hret ⊢
    obtain ⟨h', res⟩ := x
    cases res with
    | none => exact ⟨ds, hds, hpre.trans (prefix_sweepAll stems _), fun r hr => absurd hr (by simp)⟩
    | some res =>
      cases res with
      | error e => exact ⟨ds, hds, hpre.trans (prefix_sweepAll stems _), fun r hr => absurd hr (by simp)⟩
      | ok r =>
        obtain ⟨rfl, hdone⟩ := hret r rfl
        obtain ⟨ds', hds', hpre', hret'⟩ := gcStems_run stems _ h'
        refine ⟨ds ++ ds', ?_, ?_, fun r' hr' => ?_⟩
        · rw [hds', hds, List.append_assoc]
        · rw [← List.append_assoc, hdone]
          exact hpre'
        · rw [← List.append_assoc, hdone]
          exact hret' r' hr'

end

/-! ### What a scan reads -/

/-- The volume that an exchange read, and its XML. -/
def readBy : Exchange Cmd Ans → Option (Str × Str)
  | ⟨.volDump n _, (rc, xml)⟩ => if rc = 0 then some (n, xml) else none
  | _ => none

/-- The volumes read, in order. -/
def volumesRead (h : History Cmd Ans) : List (Str × Str) := h.filterMap readBy

/-- The box images among volumes. -/
def imagesOf (vs : List (Str × Str)) : List Str := (vs.map Prod.fst).filter fun n => (boxImage n).isSome

/-- The entities of XML. -/
def entities : List (Str × Char) := [("&amp;".toList, '&'), ("&lt;".toList, '<'), ("&gt;".toList, '>'),
  ("&apos;".toList, '\''), ("&quot;".toList, '"')]

/-- The text that XML text stands for, from where `skip` characters are read. -/
def unescapeFrom : ℕ → Str → Str
  | _, [] => []
  | skip + 1, _ :: s => unescapeFrom skip s
  | 0, c :: s =>
    match entities.find? fun e => e.1.isPrefixOf (c :: s) with
    | some e => e.2 :: unescapeFrom (e.1.length - 1) s
    | none => c :: unescapeFrom 0 s

/-- The file that a volume backs onto. -/
def backingFile (xml : Str) : Option Str := (group1 backingRe xml).map fun p => baseName (trim (unescapeFrom 0 p))

/-- The allocation that the XML tells. -/
def allocation (xml : Str) : ℤ := ((group1 allocationRe xml).bind int).getD 0

/-- The allocation of a volume, as it was last read. -/
def allocationIn (vs : List (Str × Str)) (n : Str) : ℤ :=
  ((vs.reverse.find? fun v => v.1 = n).map fun v => allocation v.2).getD 0

/-- The scan is what these volumes come to. -/
structure Scans (vs : List (Str × Str)) (scan : PoolScan) : Prop where
  names : scan.names = vs.map Prod.fst
  inUse : ∀ n, n ∈ scan.inUse ↔ n ≠ [] ∧ ∃ v ∈ vs, backing v.2 = some n
  alloc : ∀ n, scan.allocOf n = allocationIn vs n

theorem Scans.add {vs : List (Str × Str)} {scan : PoolScan} (h : Scans vs scan) (name xml : Str) :
    Scans (vs ++ [(name, xml)]) (scan.add name (allocation xml) (backing xml)) := by
  constructor
  · simp [PoolScan.add, h.names]
  · intro n
    simp only [PoolScan.add, List.mem_append, h.inUse, Option.mem_toList, Option.filter_eq_some_iff,
      List.mem_singleton, decide_eq_true_eq]
    constructor
    · rintro (⟨hne, v, hv, hback⟩ | ⟨hback, hne⟩)
      · exact ⟨hne, v, .inl hv, hback⟩
      · exact ⟨hne, (name, xml), .inr rfl, hback⟩
    · rintro ⟨hne, v, hv | rfl, hback⟩
      · exact .inl ⟨hne, v, hv, hback⟩
      · exact .inr ⟨hback, hne⟩
  · intro n
    have hold := h.alloc n
    unfold PoolScan.allocOf at hold ⊢
    simp only [PoolScan.add, Dict.get?_set, allocationIn, List.reverse_append, List.reverse_singleton,
      List.singleton_append, List.find?_cons]
    by_cases hn : n = name
    · simp [hn]
    · have hn' : ¬ name = n := fun heq => hn heq.symm
      simp only [hn, hn', if_false, decide_false]
      exact hold

theorem volDetail_run (o : Oracle Cmd Ans) (n pool : Str) (h : History Cmd Ans) :
    ∃ res, (volDetail n pool).run o h = (h ++ [⟨.volDump n pool, o h (.volDump n pool)⟩], some res) ∧
      (∀ d, res = .ok d → (o h (.volDump n pool)).1 = 0 ∧
        d = (allocation (o h (.volDump n pool)).2, backing (o h (.volDump n pool)).2)) ∧
      (∀ msg, res = .error (.volumeVanished msg) → (o h (.volDump n pool)).1 ≠ 0) ∧
      ∀ msg, res ≠ .error (.poolAbsent msg) := by
  unfold volDetail
  rw [run_bind, run_ask]
  dsimp only
  split
  · rename_i hrc
    split
    · exact ⟨_, rfl, fun d hd => absurd hd (by simp), fun _ _ => hrc, fun _ => by simp⟩
    · exact ⟨_, rfl, fun d hd => absurd hd (by simp), fun _ _ => hrc, fun _ => by simp⟩
  · rename_i hrc
    have hrc : (o h (.volDump n pool)).1 = 0 := not_not.mp hrc
    split
    · rename_i digits hdigits
      unfold intOf
      split
      · rename_i ts hts
        refine ⟨_, rfl, fun d hd => ⟨hrc, ?_⟩, fun msg hmsg => absurd hmsg (by simp), fun _ => by simp⟩
        obtain rfl : _ = d := by simpa using hd
        simp [allocation, hdigits, hts]
      · exact ⟨_, rfl, fun d hd => absurd hd (by simp), fun msg hmsg => absurd hmsg (by simp), fun _ => by simp⟩
    · rename_i hnone
      refine ⟨_, rfl, fun d hd => ⟨hrc, ?_⟩, fun msg hmsg => absurd hmsg (by simp), fun _ => by simp⟩
      obtain rfl : _ = d := by simpa using hd
      simp [allocation, hnone]

theorem scanFrom_run (o : Oracle Cmd Ans) (pool : Str) : ∀ (names : List Str) (scan : PoolScan)
    (h h' : History Cmd Ans) (scan' : PoolScan), Scans (volumesRead h) scan →
    (scanFrom pool scan names).run o h = (h', some (.ok scan')) → Scans (volumesRead h') scan'
  | [], scan, h, h', scan', hscan, hrun => by
    obtain ⟨rfl, rfl⟩ : h = h' ∧ scan = scan' := by simpa [scanFrom] using hrun
    exact hscan
  | n :: names, scan, h, h', scan', hscan, hrun => by
    obtain ⟨res, hdetail, hok, hgone, -⟩ := volDetail_run o n pool h
    rw [scanFrom, run_bind, run_tryCatch, run_map, hdetail] at hrun
    have hread : volumesRead (h ++ [⟨.volDump n pool, o h (.volDump n pool)⟩]) = volumesRead h ++
        if (o h (.volDump n pool)).1 = 0 then [(n, (o h (.volDump n pool)).2)] else [] := by
      rw [volumesRead, List.filterMap_append]
      congr 1
      show (readBy ⟨.volDump n pool, ((o h (.volDump n pool)).1, (o h (.volDump n pool)).2)⟩).toList = _
      unfold readBy
      dsimp only
      split <;> rfl
    match res with
    | .ok d =>
      obtain ⟨hrc, rfl⟩ := hok d rfl
      rw [if_pos hrc] at hread
      refine scanFrom_run o pool names _ _ h' scan' ?_ hrun
      rw [hread]
      exact hscan.add n _
    | .error (.volumeVanished msg) =>
      rw [if_neg (hgone msg rfl), List.append_nil] at hread
      refine scanFrom_run o pool names _ _ h' scan' ?_ hrun
      rw [hread]
      exact ⟨hscan.names, hscan.inUse, hscan.alloc⟩
    | .error (.poolAbsent msg) => exact absurd hrun (by simp)
    | .error (.runtime msg) => exact absurd hrun (by simp)
    | .error (.failed e) => exact absurd hrun (by simp)
    | .error (.exit code) => exact absurd hrun (by simp)

theorem poolVolumeNames_run (o : Oracle Cmd Ans) (pool : Str) (h : History Cmd Ans) :
    ∃ res, (poolVolumeNames pool).run o h = (h ++ [⟨.volList pool, o h (.volList pool)⟩], some res) := by
  unfold poolVolumeNames
  rw [run_bind, run_ask]
  dsimp only
  split
  · split
    · exact ⟨_, rfl⟩
    · exact ⟨_, rfl⟩
  · exact ⟨_, rfl⟩

/-- A scan that completes has what it read. -/
theorem scanPool_run (o : Oracle Cmd Ans) (pool : Str) {h h' : History Cmd Ans} {scan : PoolScan}
    (hnil : volumesRead h = []) (hrun : (scanPool pool).run o h = (h', some (.ok scan))) :
    Scans (volumesRead h') scan := by
  have hstart : Scans (volumesRead (h ++ [⟨.volList pool, o h (.volList pool)⟩])) ⟨[], .empty, [], []⟩ := by
    have hread : volumesRead (h ++ [⟨.volList pool, o h (.volList pool)⟩]) = [] := by
      rw [volumesRead, List.filterMap_append]
      exact List.append_eq_nil_iff.mpr ⟨hnil, rfl⟩
    rw [hread]
    exact ⟨rfl, fun n => by simp, fun n => by simp [PoolScan.allocOf, allocationIn]⟩
  obtain ⟨res, hnames⟩ := poolVolumeNames_run o pool h
  rw [scanPool, run_bind, hnames] at hrun
  cases res with
  | ok names => exact scanFrom_run o pool names _ _ h' scan hstart hrun
  | error e => exact absurd hrun (by simp)

/-- A pool that is absent is read no further. -/
theorem scanFrom_run_ne_absent (o : Oracle Cmd Ans) (pool msg : Str) : ∀ (names : List Str) (scan : PoolScan)
    (h : History Cmd Ans), ((scanFrom pool scan names).run o h).2 ≠ some (.error (.poolAbsent msg))
  | [], scan, h => by simp [scanFrom]
  | n :: names, scan, h => by
    obtain ⟨res, hdetail, -, -, habsent⟩ := volDetail_run o n pool h
    rw [scanFrom, run_bind, run_tryCatch, run_map, hdetail]
    match res with
    | .ok d => exact scanFrom_run_ne_absent o pool msg names _ _
    | .error (.volumeVanished msg') => exact scanFrom_run_ne_absent o pool msg names _ _
    | .error (.poolAbsent msg') => exact absurd rfl (habsent msg')
    | .error (.runtime msg') => exact fun heq => by simp at heq
    | .error (.failed e) => exact fun heq => by simp at heq
    | .error (.exit code) => exact fun heq => by simp at heq

theorem scanPool_run_absent (o : Oracle Cmd Ans) (pool msg : Str) {h h' : History Cmd Ans}
    (hnil : volumesRead h = []) (hrun : (scanPool pool).run o h = (h', some (.error (.poolAbsent msg)))) :
    volumesRead h' = [] := by
  obtain ⟨res, hnames⟩ := poolVolumeNames_run o pool h
  rw [scanPool, run_bind, hnames] at hrun
  match res with
  | .ok names =>
    have hne := scanFrom_run_ne_absent o pool msg names ⟨[], .empty, [], []⟩
      (h ++ [⟨.volList pool, o h (.volList pool)⟩])
    exact absurd (congrArg Prod.snd hrun) hne
  | .error e =>
    obtain rfl : _ = h' := congrArg Prod.fst hrun
    rw [volumesRead, List.filterMap_append]
    exact List.append_eq_nil_iff.mpr ⟨hnil, rfl⟩

theorem volDetail_reads (name pool : Str) : (volDetail name pool).Issues Cmd.Reads := by
  unfold volDetail
  refine issues_bind (issues_ask trivial) fun r => ?_
  split
  · split <;> trivial
  · split
    · refine issues_bind ?_ fun _ => trivial
      unfold intOf
      split <;> trivial
    · trivial

theorem scanFrom_reads (pool : Str) : ∀ (names : List Str) (scan : PoolScan),
    (scanFrom pool scan names).Issues Cmd.Reads
  | [], _ => trivial
  | n :: names, scan => by
    have hdetail : (some <$> volDetail n pool).Issues Cmd.Reads := issues_bind (volDetail_reads n pool) fun _ => trivial
    rw [scanFrom]
    refine issues_bind (issues_tryCatch hdetail fun e => ?_) fun detail => ?_
    · split <;> trivial
    · split
      · exact scanFrom_reads pool names _
      · exact scanFrom_reads pool names _

theorem scanPool_reads (pool : Str) : (scanPool pool).Issues Cmd.Reads := by
  have hnames : (poolVolumeNames pool).Issues Cmd.Reads := by
    unfold poolVolumeNames
    refine issues_bind (issues_ask trivial) fun r => ?_
    split
    · split <;> trivial
    · trivial
  exact issues_bind hnames fun names => scanFrom_reads pool names _

/-! ### A run of the pass -/

/-- What a run of the pass goes through: it deletes from a pool that was read,
or the pool is absent, or it fails on the way. -/
inductive Course (o : Oracle Cmd Ans) (pool : Str) (dead : List Str) : Prop where
  | read {h : History Cmd Ans} {scan : PoolScan} {imgs : Images} (hscan : Scans (volumesRead h) scan)
      (himgs : Grouped scan.names imgs) (hquiet : deletes h = [])
      (hrun : ∀ dryRun, (gcOrphanedImages dryRun pool dead).run o [] =
        (gcStems dryRun pool scan (retiredVolumeStems ++ dead) (currentBoxVolumes (o [] .boxStore))
          ⟨[], 0, [], [], dryRun, scan.vanished, none⟩ (sortedStems imgs)).run o h)
  | absent {h : History Cmd Ans} (hnil : volumesRead h = []) (hquiet : deletes h = [])
      (hrun : ∀ dryRun, (gcOrphanedImages dryRun pool dead).run o [] =
        (h, some (.ok ⟨[], 0, [], [], dryRun, [], some pool⟩)))
  | fails {h : History Cmd Ans} {res : Option (Except Halt GcResult)} (hres : ∀ r, res ≠ some (.ok r))
      (hquiet : deletes h = []) (hrun : ∀ dryRun, (gcOrphanedImages dryRun pool dead).run o [] = (h, res))

section
variable (o : Oracle Cmd Ans) (pool : Str) (dead : List Str)

/-- The run follows that of the scan. -/
theorem gcOrphanedImages_run {h : History Cmd Ans} {res : Option (Except Halt PoolScan)}
    (hscan : (scanPool pool).run o [⟨.boxStore, o [] .boxStore⟩] = (h, res)) (dryRun : Bool) :
    (∀ scan, res = some (.ok scan) → (gcOrphanedImages dryRun pool dead).run o [] =
      (gcScan dryRun pool (retiredVolumeStems ++ dead) (currentBoxVolumes (o [] .boxStore)) scan).run o h) ∧
    (∀ msg, res = some (.error (.poolAbsent msg)) → (gcOrphanedImages dryRun pool dead).run o [] =
      (h, some (.ok ⟨[], 0, [], [], dryRun, [], some pool⟩))) ∧
    (∀ e, res = some (.error e) → (∀ msg, e ≠ .poolAbsent msg) →
      (gcOrphanedImages dryRun pool dead).run o [] = (h, some (.error e))) ∧
    (res = none → (gcOrphanedImages dryRun pool dead).run o [] = (h, none)) := by
  rw [gcOrphanedImages, run_bind, run_ask]
  dsimp only
  rw [run_bind, run_tryCatch, run_map, List.nil_append, hscan]
  refine ⟨fun scan hres => ?_, fun msg hres => ?_, fun e hres he => ?_, fun hres => ?_⟩
  · rw [hres]
  · rw [hres]
    rfl
  · rw [hres]
    cases e with
    | poolAbsent msg => exact absurd rfl (he msg)
    | _ => rfl
  · rw [hres]

theorem course : Course o pool dead := by
  obtain ⟨⟨h, res⟩, hscan⟩ : ∃ x, (scanPool pool).run o [⟨.boxStore, o [] .boxStore⟩] = x := ⟨_, rfl⟩
  have hquiet : deletes h = [] := by
    have hreads := deletes_run_of_issues o (scanPool_reads pool) [⟨.boxStore, o [] .boxStore⟩]
    rw [hscan] at hreads
    exact hreads
  have hrun := gcOrphanedImages_run o pool dead hscan
  cases res with
  | none => exact .fails (fun r => by simp) hquiet fun dryRun => (hrun dryRun).2.2.2 rfl
  | some res =>
    cases res with
    | ok scan =>
      have hstart := fun dryRun => (hrun dryRun).1 scan rfl
      have hread : Scans (volumesRead h) scan := scanPool_run o pool rfl hscan
      rcases boxImagesFrom_eq scan.names [] .empty grouped_empty with ⟨imgs, himgs, hgroup⟩ | hfail
      · refine .read hread hgroup hquiet fun dryRun => ?_
        rw [hstart, gcScan, PoolScan.boxImages, himgs]
        rfl
      · have hne : ∀ r : GcResult, (some (.error (.failed .valueError)) : Option (Except Halt GcResult)) ≠
          some (.ok r) := fun r => by simp
        refine .fails hne hquiet fun dryRun => ?_
        rw [hstart, gcScan, PoolScan.boxImages, hfail]
        rfl
    | error e =>
      by_cases habsent : ∃ msg, e = .poolAbsent msg
      · obtain ⟨msg, rfl⟩ := habsent
        exact .absent (scanPool_run_absent o pool msg rfl hscan) hquiet fun dryRun => (hrun dryRun).2.1 msg rfl
      · have he : ∀ msg, e ≠ .poolAbsent msg := fun msg heq => habsent ⟨msg, heq⟩
        exact .fails (fun r => by simp) hquiet fun dryRun => (hrun dryRun).2.2.1 e rfl he

end

/-! ### What a pass has made of the volumes -/

/-- The outcome: the images that were read, each once more in one of the lists. -/
structure Outcome (dead : List Str) (current : Dict Str (List Str)) (vs : List (Str × Str)) (r : GcResult) :
    Prop where
  perm : (r.deleted ++ r.kept ++ r.skippedInUse).Perm (imagesOf vs)
  deleted : ∀ n, n ∈ r.deleted ↔ n ∈ imagesOf vs ∧ Stale dead current (imagesOf vs) n ∧
    ¬ ∃ v ∈ vs, backing v.2 = some n
  freed : r.freedBytes = (r.deleted.map (allocationIn vs)).sum

section
variable {dead : List Str} {current : Dict Str (List Str)}

theorem stale_filter {names : List Str} {n : Str} :
    Stale dead current (names.filter fun n => (boxImage n).isSome) n ↔ Stale dead current names n := by
  have hnewer : (∃ n' ∈ names.filter fun n => (boxImage n).isSome, Newer n n') ↔ ∃ n' ∈ names, Newer n n' := by
    constructor
    · intro ⟨n', hn', hnewer⟩
      exact ⟨n', List.mem_of_mem_filter hn', hnewer⟩
    · intro ⟨n', hn', hnewer⟩
      obtain ⟨_, _, _, _, _, -, hname, -⟩ := id hnewer
      exact ⟨n', List.mem_filter.mpr ⟨hn', by rw [hname]; rfl⟩, hnewer⟩
  unfold Stale
  rw [hnewer]

theorem Swept.outcome {vs : List (Str × Str)} {scan : PoolScan} {imgs : Images} {r : GcResult}
    (h : Swept scan dead current (sortedStems imgs) r) (hscan : Scans vs scan) (himgs : Grouped scan.names imgs) :
    Outcome dead current vs r := by
  have hstems : (sortedStems imgs).Perm imgs.items := List.perm_insertionSort _ _
  have hnames : scan.names.filter (fun n => (boxImage n).isSome) = imagesOf vs := by rw [hscan.names]; rfl
  have hperm : ((sortedStems imgs).flatMap fun s => (sortedImages s.2).map Prod.snd).Perm (imagesOf vs) := by
    rw [← hnames]
    have hsorted : ∀ s ∈ sortedStems imgs, ((sortedImages s.2).map Prod.snd).Perm (s.2.map Prod.snd) :=
      fun s _ => (List.perm_insertionSort _ s.2).map Prod.snd
    exact (List.Perm.flatMap_left _ hsorted).trans ((hstems.flatMap_right _).trans himgs.perm)
  constructor
  · exact h.perm.trans hperm
  · intro n
    rw [h.deleted, ← hperm.mem_iff, ← hnames, stale_filter]
    have hkeep : ∀ s ∈ sortedStems imgs, n ∈ (sortedImages s.2).map Prod.snd →
        (n ∉ keepOf dead current s.1 (sortedImages s.2) ↔ Stale dead current scan.names n) ∧
          (n ∉ scan.inUse ↔ ¬ ∃ v ∈ vs, backing v.2 = some n) := by
      intro s hs hn
      obtain ⟨i, hi, rfl⟩ := List.mem_map.mp hn
      have hget : imgs.get? s.1 = some s.2 := Dict.get?_eq_some.mpr (hstems.mem_iff.mp hs)
      have hi' : i ∈ s.2 := mem_sortedImages.mp hi
      obtain ⟨-, ds, hname, -⟩ := himgs.own s.1 s.2 hget i hi'
      have hempty : boxImage [] = none := by decide
      have hne : i.2 ≠ [] := fun heq => by
        rw [heq, hempty] at hname
        cases hname
      refine ⟨himgs.not_mem_keepOf dead current hget hi', ?_⟩
      rw [hscan.inUse]
      exact not_congr (and_iff_right hne)
    constructor
    · intro ⟨s, hs, hn, hkept, huse⟩
      exact ⟨List.mem_flatMap.mpr ⟨s, hs, hn⟩, (hkeep s hs hn).1.mp hkept, (hkeep s hs hn).2.mp huse⟩
    · intro ⟨hmem, hstale, huse⟩
      obtain ⟨s, hs, hn⟩ := List.mem_flatMap.mp hmem
      exact ⟨s, hs, hn, (hkeep s hs hn).1.mpr hstale, (hkeep s hs hn).2.mpr huse⟩
  · have halloc : scan.allocOf = allocationIn vs := funext hscan.alloc
    rw [h.freed, halloc]

end

/-! ### Safe and exact -/

/-- The outcome deletes what no box and no disk needs, and tells it exactly. -/
structure Exact (dead : List Str) (current : Dict Str (List Str)) (vs : List (Str × Str)) (r : GcResult) :
    Prop where
  shape : ∀ n ∈ r.deleted, (boxImage n).isSome
  unused : ∀ n ∈ r.deleted, ∀ v ∈ vs, backingFile v.2 ≠ some n
  registered : ∀ n ∈ r.deleted, ∀ stem ds volumes, boxImage n = some (stem, ds) → stem ∉ dead →
    current.get? stem = some volumes → n ∉ volumes
  newest : ∀ n ∈ r.deleted, ∀ stem ds, boxImage n = some (stem, ds) → stem ∉ dead → current.get? stem = none →
    ∃ n' ∈ imagesOf vs, Newer n n'
  perm : (r.deleted ++ r.kept ++ r.skippedInUse).Perm (imagesOf vs)
  nodup : (r.deleted ++ r.kept ++ r.skippedInUse).Nodup
  freed : r.freedBytes = (r.deleted.map (allocationIn vs)).sum

/-- The scan reads each image once, and sees that a stale one is in use. -/
def GcReads (dead : List Str) (current : Dict Str (List Str)) (vs : List (Str × Str)) : Prop :=
  (imagesOf vs).Nodup ∧ ∀ n ∈ imagesOf vs, Stale dead current (imagesOf vs) n →
    (∃ v ∈ vs, backingFile v.2 = some n) → ∃ v ∈ vs, backing v.2 = some n

theorem Outcome.exact_iff {dead : List Str} {current : Dict Str (List Str)} {vs : List (Str × Str)} {r : GcResult}
    (h : Outcome dead current vs r) : Exact dead current vs r ↔ GcReads dead current vs := by
  constructor
  · intro hexact
    refine ⟨h.perm.nodup_iff.mp hexact.nodup, fun n hn hstale huse => ?_⟩
    by_contra hunseen
    obtain ⟨v, hv, hback⟩ := huse
    exact hexact.unused n ((h.deleted n).mpr ⟨hn, hstale, hunseen⟩) v hv hback
  · intro ⟨hnodup, hseen⟩
    refine ⟨fun n hn => ?_, fun n hn v hv hback => ?_, fun n hn stem ds volumes hname hdead hcur => ?_,
      fun n hn stem ds hname hdead hcur => ?_, h.perm, h.perm.nodup_iff.mpr hnodup, h.freed⟩
    · exact (List.mem_filter.mp ((h.deleted n).mp hn).1).2
    · obtain ⟨hmem, hstale, hunseen⟩ := (h.deleted n).mp hn
      exact hunseen (hseen n hmem hstale ⟨v, hv, hback⟩)
    · obtain ⟨-, ⟨stem', ds', hname', hwhy⟩, -⟩ := (h.deleted n).mp hn
      obtain ⟨rfl, rfl⟩ : stem = stem' ∧ ds = ds' := by simpa [hname] using hname'
      rcases hwhy with hdead' | ⟨volumes', hcur', hout⟩ | ⟨hcur', -⟩
      · exact absurd hdead' hdead
      · obtain rfl : volumes = volumes' := Option.some.inj (hcur.symm.trans hcur')
        exact hout
      · exact absurd (hcur.symm.trans hcur') (by simp)
    · obtain ⟨-, ⟨stem', ds', hname', hwhy⟩, -⟩ := (h.deleted n).mp hn
      obtain ⟨rfl, rfl⟩ : stem = stem' ∧ ds = ds' := by simpa [hname] using hname'
      rcases hwhy with hdead' | ⟨volumes', hcur', -⟩ | ⟨-, hnewer⟩
      · exact absurd hdead' hdead
      · exact absurd (hcur.symm.trans hcur') (by simp)
      · exact hnewer

section
variable (o : Oracle Cmd Ans) (pool : Str) (dead : List Str)

/-- A run of the pass, from its start. -/
def gcRun (dryRun : Bool) : History Cmd Ans × Option (Except Halt GcResult) :=
  (gcOrphanedImages dryRun pool dead).run o []

/-- The pass is safe and exact, and a dry run tells what a run does. -/
structure GcExact : Prop where
  quiet : deletes (gcRun o pool dead true).1 = []
  planned : ∀ r, (gcRun o pool dead true).2 = some (.ok r) → deletes (gcRun o pool dead false).1 <+: r.deleted
  unplanned : (∀ r, (gcRun o pool dead true).2 ≠ some (.ok r)) → deletes (gcRun o pool dead false).1 = []
  agrees : ∀ r, (gcRun o pool dead false).2 = some (.ok r) →
    (gcRun o pool dead true).2 = some (.ok { r with dryRun := true }) ∧
      deletes (gcRun o pool dead false).1 = r.deleted
  sound : ∀ r, (gcRun o pool dead true).2 = some (.ok r) →
    Exact (retiredVolumeStems ++ dead) (currentBoxVolumes (o [] .boxStore))
      (volumesRead (gcRun o pool dead true).1) r

/-- The dry run tells an outcome. -/
theorem outcome_of_dry {r : GcResult} (hdry : (gcRun o pool dead true).2 = some (.ok r)) :
    Outcome (retiredVolumeStems ++ dead) (currentBoxVolumes (o [] .boxStore))
      (volumesRead (gcRun o pool dead true).1) r := by
  cases course o pool dead with
  | @read h scan imgs hscan himgs hquiet hrun =>
    have hplan : gcRun o pool dead true = (h, some (.ok (sweepAll scan (retiredVolumeStems ++ dead)
        (currentBoxVolumes (o [] .boxStore)) ⟨[], 0, [], [], true, scan.vanished, none⟩ (sortedStems imgs)))) := by
      rw [gcRun, hrun, gcStems_dry, run_pure]
    rw [hplan] at hdry ⊢
    obtain rfl : _ = r := by simpa using hdry
    have hstart : Swept scan (retiredVolumeStems ++ dead) (currentBoxVolumes (o [] .boxStore)) []
        ⟨[], 0, [], [], true, scan.vanished, none⟩ := ⟨.nil, fun n => by simp, rfl⟩
    have hswept : Swept scan _ _ (sortedStems imgs) _ := hstart.all
    exact hswept.outcome hscan himgs
  | @absent h hnil hquiet hrun =>
    have hplan : gcRun o pool dead true = _ := hrun true
    rw [hplan] at hdry ⊢
    obtain rfl : _ = r := by simpa using hdry
    rw [hnil]
    exact ⟨.nil, fun n => by simp [imagesOf], rfl⟩
  | fails hres hquiet hrun =>
    have hplan : gcRun o pool dead true = _ := hrun true
    rw [hplan] at hdry
    exact absurd hdry (hres r)

/-- A run deletes a part of what the dry run tells; all of it, if it returns. -/
theorem gcRun_follows : deletes (gcRun o pool dead true).1 = [] ∧
    (∀ r, (gcRun o pool dead true).2 = some (.ok r) → deletes (gcRun o pool dead false).1 <+: r.deleted) ∧
    ((∀ r, (gcRun o pool dead true).2 ≠ some (.ok r)) → deletes (gcRun o pool dead false).1 = []) ∧
    ∀ r, (gcRun o pool dead false).2 = some (.ok r) →
      (gcRun o pool dead true).2 = some (.ok { r with dryRun := true }) ∧
        deletes (gcRun o pool dead false).1 = r.deleted := by
  cases course o pool dead with
  | @read h scan imgs hscan himgs hquiet hrun =>
    let start : GcResult := ⟨[], 0, [], [], false, scan.vanished, none⟩
    let plan : GcResult := sweepAll scan (retiredVolumeStems ++ dead) (currentBoxVolumes (o [] .boxStore)) start
      (sortedStems imgs)
    have hdry : gcRun o pool dead true = (h, some (.ok { plan with dryRun := true })) := by
      have hplan : sweepAll scan (retiredVolumeStems ++ dead) (currentBoxVolumes (o [] .boxStore))
          { start with dryRun := true } (sortedStems imgs) = { plan with dryRun := true } :=
        sweepAll_dryRun true (sortedStems imgs) start
      rw [gcRun, hrun, gcStems_dry, run_pure, hplan]
    obtain ⟨ds, hds, hpre, hret⟩ := gcStems_run o pool scan (retiredVolumeStems ++ dead)
      (currentBoxVolumes (o [] .boxStore)) (sortedStems imgs) start h
    have hreal : gcRun o pool dead false = _ := hrun false
    rw [hquiet, List.nil_append] at hds
    rw [hdry, hreal]
    refine ⟨hquiet, fun r hr => ?_, fun hno => absurd rfl (hno _), fun r hr => ?_⟩
    · obtain rfl : _ = r := by simpa using hr
      rw [hds]
      exact hpre
    · obtain ⟨rfl, hall⟩ := hret r hr
      exact ⟨rfl, hds.trans hall⟩
  | @absent h hnil hquiet hrun =>
    have hboth : ∀ dryRun, gcRun o pool dead dryRun = _ := hrun
    rw [hboth, hboth, hquiet]
    refine ⟨rfl, fun r _ => List.nil_prefix, fun _ => rfl, fun r hr => ?_⟩
    obtain rfl : _ = r := by simpa using hr
    exact ⟨rfl, rfl⟩
  | @fails h res hres hquiet hrun =>
    have hboth : ∀ dryRun, gcRun o pool dead dryRun = _ := hrun
    rw [hboth, hboth, hquiet]
    exact ⟨rfl, fun r hr => absurd hr (hres r), fun _ => rfl, fun r hr => absurd hr (hres r)⟩

/-- **The pass is safe and exact** on the pools where it reads each image once
and sees the uses of the stale ones. -/
theorem gc_exact_iff : GcExact o pool dead ↔ ∀ r, (gcRun o pool dead true).2 = some (.ok r) →
    GcReads (retiredVolumeStems ++ dead) (currentBoxVolumes (o [] .boxStore))
      (volumesRead (gcRun o pool dead true).1) := by
  obtain ⟨hquiet, hplanned, hunplanned, hagrees⟩ := gcRun_follows o pool dead
  constructor
  · intro hexact r hdry
    exact (outcome_of_dry o pool dead hdry).exact_iff.mp (hexact.sound r hdry)
  · intro hreads
    refine ⟨hquiet, hplanned, hunplanned, hagrees, fun r hdry => ?_⟩
    exact (outcome_of_dry o pool dead hdry).exact_iff.mpr (hreads r hdry)

end

/-! ### A name that XML escapes -/

/-- The image of a retired release of the box `a&b`. -/
def ampImage : Str := "a&b_vagrant_box_image_0_1_box.img".toList

/-- A disk that backs onto it, as `vol-dumpxml` writes it. -/
def ampDisk : Str := ["<volume><allocation unit='bytes'>7</allocation><backingStore><path>/pool/".toList,
  "a&amp;b_vagrant_box_image_0_1_box.img</path></backingStore></volume>".toList].flatten

/-- A pool with the image, a newer one, and the disk. -/
def ampPool : Oracle Cmd Ans := fun _ c =>
  match c with
  | .volList _ => (0, ["a&b_vagrant_box_image_0_1_box.img /pool/1\n".toList,
      "a&b_vagrant_box_image_0_2_box.img /pool/2\n".toList, "mq_disk.img /pool/3\n".toList].flatten)
  | .volDump name _ => (0, if name = "mq_disk.img".toList then ampDisk else [])
  | .volDelete _ _ => (0, [])
  | .boxStore => []
  | .boxList => []
  | .boxRemove _ => (0, [])
  | .cacheFiles => []
  | .unlink _ => ()

theorem gc_deletes_used_image : ¬ GcExact ampPool "default".toList [] := by
  intro hexact
  have hdry : (gcRun ampPool "default".toList [] true).2 = some (.ok
      ⟨[ampImage], 0, ["a&b_vagrant_box_image_0_2_box.img".toList], [], true, [], none⟩) := by
    decide +kernel
  have hread : ("mq_disk.img".toList, ampDisk) ∈ volumesRead (gcRun ampPool "default".toList [] true).1 := by
    decide +kernel
  have hback : backingFile ampDisk = some ampImage := by decide +kernel
  exact (hexact.sound _ hdry).unused ampImage List.mem_cons_self _ hread hback

end BoxGc
end Lab
end MqResiliency
