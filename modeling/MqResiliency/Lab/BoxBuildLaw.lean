/-
# When a box is used again

A stamp vouches for the `.box` beside it. `Kept` says that every stamp tells
the truth, and that no base box is cut short; then a builder that uses a box
again has a finished bake of the inputs as they are (`Sound`), however they
are edited (`Kept.sound`).

`Clean` is the condition under which an event keeps that: a build is not cut
off with another bake's stamp beside its `.box`, a base box's `tar` is not cut
off, and a rename does not bring a stamp and a `.box` of two bakes together.
It is exact (`clean_run_iff`): what breaks it is one edit away from the use of
a wrong box.
-/
import MqResiliency.Lab.BoxBuild

namespace MqResiliency
namespace Lab
namespace BoxBuild

open Py

section
variable {ι : Type} (manifestHash : Str → ι → Digest)

/-! ### The stamp tells the truth -/

/-- The stamp is the digest of what this `.box` was baked from. -/
def Vouches (k : Slot) (t : Str) (f : BoxFile ι) : Prop :=
  ∃ i, f.content = .whole i ∧ substituted t = (manifestHash k.box i).text

/-- What holds of the cache between the runs. -/
structure Kept (c : Cache ι) : Prop where
  vouched : ∀ k f t, (c.pairs k).box = some f → (c.pairs k).hashFile = some t → Vouches manifestHash k t f
  stamped : ∀ k t, (c.pairs k).hashFile = some t → ∃ i, substituted t = (manifestHash k.box i).text
  bases : ∀ a f, c.bases a = some f → ∃ i, f.content = .whole i

/-- Every pair is complete and matching, or not there at all. -/
structure Complete (c : Cache ι) : Prop where
  pairs : ∀ k, c.pairs k = ⟨none, none⟩ ∨ ∃ f t, c.pairs k = ⟨some f, some t⟩ ∧ Vouches manifestHash k t f
  bases : ∀ a f, c.bases a = some f → ∃ i, f.content = .whole i

/-- What a builder uses again is a finished bake of the inputs as they are,
and young enough; and a base box is whole. -/
structure Sound (w : World ι) : Prop where
  fat : ∀ run : FatRun, w.decides manifestHash run = .reuse → ∃ f i, (w.pair run).box = some f ∧
    f.content = .whole i ∧ manifestHash run.box i = w.currentHash manifestHash run.box ∧
    ageDays run.decidedAt f < run.refuseDays
  base : ∀ run : BaseRun, w.decidesBase run = .reuse →
    ∃ f i, w.cache.bases run.artifact = some f ∧ f.content = .whole i

/-! ### Clean events -/

/-- A build is not cut off in its `tar` where there is a stamp, nor after it
where there is another stamp than its own. -/
def FatClean (w : World ι) (run : FatRun) (stop : ℕ) : Prop :=
  let cmds := w.fatCmds manifestHash run stop
  (.tarOpen ∈ cmds → .tarDone ∉ cmds → (w.pair run).hashFile = none) ∧
    (.tarDone ∈ cmds → .stamp ∉ cmds → ∀ t, (w.pair run).hashFile = some t →
      substituted t = (w.currentHash manifestHash run.box).text)

/-- A base box's build is not cut off in its `tar`. -/
def BaseClean (w : World ι) (run : BaseRun) (stop : ℕ) : Prop :=
  .tarOpen ∈ w.baseCmds run stop → .tarDone ∈ w.baseCmds run stop

/-- What a rename brings to the new name belongs to what is there. -/
def Move.Clean (c : Cache ι) : Move → Prop
  | .box name => ∀ f t, moved (c.pairs (.legacy name)).box (c.pairs (.current name legacyArch)).box = some f →
      (c.pairs (.current name legacyArch)).hashFile = some t → Vouches manifestHash (.legacy name) t f
  | .hash name => ∀ f t, (c.pairs (.current name legacyArch)).box = some f →
      moved (c.pairs (.legacy name)).hashFile (c.pairs (.current name legacyArch)).hashFile = some t →
      Vouches manifestHash (.legacy name) t f
  | .base _ _ => True

/-- Each rename is, where it happens. -/
def MovesClean (c : Cache ι) : List Move → Prop
  | [] => True
  | m :: ms => m.Clean manifestHash c ∧ MovesClean (m.apply c) ms

/-- The condition on an event, in the state before it. -/
def Clean (w : World ι) : Event ι → Prop
  | .edit _ => True
  | .fat run stop => FatClean manifestHash w run stop
  | .base run stop => BaseClean w run stop
  | .migrate fleet retired dryRun stop => MovesClean manifestHash w.cache (migration fleet retired dryRun stop)

/-- Each event of the run meets it. -/
def CleanRun (w : World ι) : List (Event ι) → Prop
  | [] => True
  | e :: es => Clean manifestHash w e ∧ CleanRun (w.step manifestHash e) es

end

/-! ### Decisions -/

section
variable {ι : Type} {manifestHash : Str → ι → Digest}

theorem substituted_stamp (d : Digest) : substituted (d.text ++ ['\n']) = d.text := by
  have hd : substituted d.text = d.text := by
    refine List.rdropWhile_eq_self_iff.mpr fun hne => ?_
    have hlast : d.text.getLast hne ∈ d.text := List.getLast_mem hne
    have h : d.text.getLast hne ≠ '\n' := fun h => d.one_line (h ▸ hlast)
    simpa using h
  rw [substituted, List.rdropWhile_concat_pos _ _ _ (by simp)]
  exact hd

theorem Digest.text_ne_nil (d : Digest) : d.text ≠ [] := by
  intro h
  have := d.length_eq
  simp [h] at this

theorem reuse_iff {run : FatRun} {current : Digest} {p : Pair ι} :
    decision run current p = .reuse ↔ run.force = false ∧ ∃ f t, p.box = some f ∧ p.hashFile = some t ∧
      substituted t = current.text ∧ ageDays run.decidedAt f < run.refuseDays := by
  unfold decision
  cases run.force with
  | true => simp
  | false =>
    obtain ⟨box, hashFile⟩ := p
    cases box with
    | none => simp
    | some f =>
      cases hashFile with
      | none =>
        have : substituted [] ≠ current.text := fun h => current.text_ne_nil h.symm
        simp [this]
      | some t =>
        by_cases ht : substituted t = current.text
        · by_cases ha : run.refuseDays ≤ ageDays run.decidedAt f
          · simp [ht, ha]
          · simp [ht, ha, Int.not_le.mp ha]
        · simp [ht]

theorem baseReuse_iff {run : BaseRun} {box : Option (BoxFile ι)} :
    baseDecision run box = .reuse ↔ run.force = false ∧ box.isSome := by
  unfold baseDecision
  cases run.force <;> cases box <;> simp

/-- True stamps make every decision sound. -/
theorem Kept.sound {c : Cache ι} (hc : Kept manifestHash c) (inputs : ι) : Sound manifestHash ⟨inputs, c⟩ where
  fat run h := by
    obtain ⟨_, f, t, hf, ht, hcur, hage⟩ := reuse_iff.mp h
    obtain ⟨i, hi, hti⟩ := hc.vouched _ f t hf ht
    exact ⟨f, i, hf, hi, Digest.ext' (hti.symm.trans hcur), hage⟩
  base run h := by
    obtain ⟨f, hf⟩ := Option.isSome_iff_exists.mp (baseReuse_iff.mp h).2
    obtain ⟨i, hi⟩ := hc.bases _ f hf
    exact ⟨f, i, hf, hi⟩

theorem Complete.kept {c : Cache ι} (hc : Complete manifestHash c) : Kept manifestHash c where
  vouched k f t hf ht := by
    rcases hc.pairs k with h | ⟨f', t', h, hv⟩
    · simp [h] at hf
    · rw [h] at hf ht
      cases hf
      cases ht
      exact hv
  stamped k t ht := by
    rcases hc.pairs k with h | ⟨f', t', h, i, _, hi⟩
    · simp [h] at ht
    · rw [h] at ht
      cases ht
      exact ⟨i, hi⟩
  bases := hc.bases

/-! ### Builds that are cut off -/

theorem script_take (cmds : List BuildCmd) (dryRun : Bool) (a : Action) (stop : ℕ) :
    ∃ n, (script cmds dryRun a).take stop = cmds.take n := by
  cases a with
  | build | forceBuild =>
    cases dryRun with
    | true => exact ⟨0, by simp [script]⟩
    | false => exact ⟨stop, rfl⟩
  | stale | reuse => exact ⟨0, by simp [script]⟩

/-- The stamp is the last of the three. -/
theorem packaging_order (n : ℕ) : (.stamp ∈ packaging.take n → .tarDone ∈ packaging.take n) ∧
    (.tarDone ∈ packaging.take n → .tarOpen ∈ packaging.take n) := by
  match n with
  | 0 | 1 | 2 | 3 => decide
  | n + 4 => simp [packaging]

/-- What a build leaves of the `.box`. -/
theorem write_take (inputs : ι) (now : ℤ) (box : Option (BoxFile ι)) (n : ℕ) :
    (packaging.take n).foldl (BuildCmd.write inputs now) box =
      if .tarDone ∈ packaging.take n then some ⟨.whole inputs, now⟩
      else if .tarOpen ∈ packaging.take n then some ⟨.torn, now⟩
      else box := by
  match n with
  | 0 | 1 | 2 | 3 | 4 | 5 | 6 => rfl
  | n + 7 => simp [packaging, BuildCmd.write]

/-- The same of a base box. -/
theorem base_write_take (inputs : ι) (now : ℤ) (box : Option (BoxFile ι)) (n : ℕ) :
    (basePackaging.take n).foldl (BuildCmd.write inputs now) box =
      if .tarDone ∈ basePackaging.take n then some ⟨.whole inputs, now⟩
      else if .tarOpen ∈ basePackaging.take n then some ⟨.torn, now⟩
      else box := by
  match n with
  | 0 | 1 | 2 | 3 | 4 => rfl
  | n + 5 => simp [basePackaging, BuildCmd.write]

theorem apply_box (inputs : ι) (d : Digest) (now : ℤ) : ∀ (cmds : List BuildCmd) (p : Pair ι),
    (cmds.foldl (BuildCmd.apply inputs d now) p).box = cmds.foldl (BuildCmd.write inputs now) p.box
  | [], _ => rfl
  | _ :: cmds, _ => apply_box inputs d now cmds _

theorem apply_hashFile (inputs : ι) (d : Digest) (now : ℤ) : ∀ (cmds : List BuildCmd) (p : Pair ι),
    (cmds.foldl (BuildCmd.apply inputs d now) p).hashFile =
      if .stamp ∈ cmds then some (d.text ++ ['\n']) else p.hashFile
  | [], _ => rfl
  | c :: cmds, p => by
    have ih := apply_hashFile inputs d now cmds (c.apply inputs d now p)
    rw [List.foldl_cons, ih]
    by_cases hs : .stamp ∈ cmds
    · simp [hs]
    · by_cases hc : c = .stamp
      · simp [hc, BuildCmd.apply]
      · have hc' : ¬ BuildCmd.stamp = c := fun h => hc h.symm
        simp [hs, hc, hc', BuildCmd.apply]

/-! ### What a clean event keeps -/

@[simp] theorem setPair_pairs (c : Cache ι) (k : Slot) (p : Pair ι) :
    (c.setPair k p).pairs = Function.update c.pairs k p := rfl

@[simp] theorem setPair_bases (c : Cache ι) (k : Slot) (p : Pair ι) : (c.setPair k p).bases = c.bases := rfl

@[simp] theorem setBase_pairs (c : Cache ι) (a : Str) (f : Option (BoxFile ι)) :
    (c.setBase a f).pairs = c.pairs := rfl

@[simp] theorem setBase_bases (c : Cache ι) (a : Str) (f : Option (BoxFile ι)) :
    (c.setBase a f).bases = Function.update c.bases a f := rfl

/-- A pair that is put in keeps the rest. -/
theorem Kept.setPair {c : Cache ι} (hc : Kept manifestHash c) {k : Slot} {p : Pair ι}
    (hv : ∀ f t, p.box = some f → p.hashFile = some t → Vouches manifestHash k t f)
    (hs : ∀ t, p.hashFile = some t → ∃ i, substituted t = (manifestHash k.box i).text) :
    Kept manifestHash (c.setPair k p) where
  vouched k' f t hf ht := by
    rw [setPair_pairs] at hf ht
    by_cases hk : k' = k
    · subst hk
      rw [Function.update_self] at hf ht
      exact hv f t hf ht
    · rw [Function.update_of_ne hk] at hf ht
      exact hc.vouched k' f t hf ht
  stamped k' t ht := by
    rw [setPair_pairs] at ht
    by_cases hk : k' = k
    · subst hk
      rw [Function.update_self] at ht
      exact hs t ht
    · rw [Function.update_of_ne hk] at ht
      exact hc.stamped k' t ht
  bases := hc.bases

/-- And so does a base box. -/
theorem Kept.setBase {c : Cache ι} (hc : Kept manifestHash c) {a : Str} {box : Option (BoxFile ι)}
    (hw : ∀ f, box = some f → ∃ i, f.content = .whole i) : Kept manifestHash (c.setBase a box) where
  vouched := hc.vouched
  stamped := hc.stamped
  bases a' f hf := by
    rw [setBase_bases] at hf
    by_cases ha : a' = a
    · subst ha
      rw [Function.update_self] at hf
      exact hw f hf
    · rw [Function.update_of_ne ha] at hf
      exact hc.bases a' f hf

theorem moved_eq_some {α : Type} {src dst : Option α} {f : α} :
    moved src dst = some f ↔ src = some f ∧ dst = none := by
  unfold moved
  cases src <;> cases dst <;> simp

theorem Kept.move {c : Cache ι} (hc : Kept manifestHash c) {m : Move} (hm : m.Clean manifestHash c) :
    Kept manifestHash (m.apply c) := by
  cases m with
  | box name =>
    unfold Move.apply
    dsimp only
    split
    · rename_i f hf
      have hsrc : Kept manifestHash (c.setPair (.legacy name) { c.pairs (.legacy name) with box := none }) :=
        hc.setPair (fun f t hf _ => absurd hf (by simp)) (hc.stamped _)
      refine hsrc.setPair (fun f' t hf' ht => ?_) (hc.stamped (.current name legacyArch))
      cases hf'
      exact hm f t hf ht
    · exact hc
  | hash name =>
    unfold Move.apply
    dsimp only
    split
    · rename_i t ht
      have hsrc : Kept manifestHash (c.setPair (.legacy name) { c.pairs (.legacy name) with hashFile := none }) :=
        hc.setPair (fun f t _ ht => absurd ht (by simp)) (fun t ht => absurd ht (by simp))
      refine hsrc.setPair (fun f t' hf ht' => ?_) (fun t' ht' => ?_)
      · cases ht'
        exact hm f t hf ht
      · cases ht'
        exact hc.stamped (.legacy name) t (moved_eq_some.mp ht).1
    · exact hc
  | base legacy new =>
    unfold Move.apply
    dsimp only
    split
    · rename_i f hf
      have hsrc : Kept manifestHash (c.setBase legacy none) := hc.setBase fun f hf => absurd hf (by simp)
      refine hsrc.setBase fun f' hf' => ?_
      cases hf'
      exact hc.bases legacy f (moved_eq_some.mp hf).1
    · exact hc

theorem Kept.moves : ∀ {ms : List Move} {c : Cache ι}, Kept manifestHash c → MovesClean manifestHash c ms →
    Kept manifestHash (ms.foldl Move.apply c)
  | [], _, hc, _ => hc
  | _ :: _, _, hc, hms => (hc.move hms.1).moves hms.2

/-- The step lemma: a clean event keeps the stamps true. -/
theorem Kept.step {w : World ι} (hw : Kept manifestHash w.cache) {e : Event ι} (he : Clean manifestHash w e) :
    Kept manifestHash (w.step manifestHash e).cache := by
  cases e with
  | edit inputs => exact hw
  | fat run stop =>
    obtain ⟨n, hn⟩ := script_take packaging run.dryRun (w.decides manifestHash run) stop
    obtain ⟨hopen, hdone⟩ : FatClean manifestHash w run stop := he
    obtain ⟨hsd, hdo⟩ := packaging_order n
    rw [World.fatCmds, hn] at hopen hdone
    have hself := substituted_stamp (w.currentHash manifestHash run.box)
    show Kept manifestHash (w.cache.setPair _ _)
    rw [World.fatCmds, hn]
    refine hw.setPair (fun f t hf ht => ?_) (fun t ht => ?_)
    · rw [apply_box, write_take] at hf
      rw [apply_hashFile] at ht
      by_cases hs : .stamp ∈ packaging.take n
      · rw [if_pos (hsd hs)] at hf
        rw [if_pos hs] at ht
        cases hf
        cases ht
        exact ⟨w.inputs, rfl, hself⟩
      · rw [if_neg hs] at ht
        by_cases hd : .tarDone ∈ packaging.take n
        · rw [if_pos hd] at hf
          cases hf
          exact ⟨w.inputs, rfl, hdone hd hs t ht⟩
        · rw [if_neg hd] at hf
          by_cases ho : .tarOpen ∈ packaging.take n
          · rw [hopen ho hd] at ht
            exact absurd ht (by simp)
          · rw [if_neg ho] at hf
            exact hw.vouched _ f t hf ht
    · rw [apply_hashFile] at ht
      by_cases hs : .stamp ∈ packaging.take n
      · rw [if_pos hs] at ht
        cases ht
        exact ⟨w.inputs, hself⟩
      · rw [if_neg hs] at ht
        exact hw.stamped _ t ht
  | base run stop =>
    obtain ⟨n, hn⟩ := script_take basePackaging run.dryRun (w.decidesBase run) stop
    have hdone : BaseClean w run stop := he
    rw [BaseClean, World.baseCmds, hn] at hdone
    show Kept manifestHash (w.cache.setBase _ _)
    rw [World.baseCmds, hn]
    refine hw.setBase fun f hf => ?_
    rw [base_write_take] at hf
    by_cases hd : .tarDone ∈ basePackaging.take n
    · rw [if_pos hd] at hf
      cases hf
      exact ⟨w.inputs, rfl⟩
    · have ho : .tarOpen ∉ basePackaging.take n := fun ho => hd (hdone ho)
      rw [if_neg hd, if_neg ho] at hf
      exact hw.bases _ f hf
  | migrate fleet retired dryRun stop => exact hw.moves he

/-! ### What any other event does -/

/-- The stamp of a fat box beside a `.box` that it does not vouch for. -/
def Torn (manifestHash : Str → ι → Digest) (c : Cache ι) : Prop :=
  ∃ b a f t, (c.pairs (.current b a)).box = some f ∧ (c.pairs (.current b a)).hashFile = some t ∧
    (∃ i, substituted t = (manifestHash b i).text) ∧ ¬ Vouches manifestHash (.current b a) t f

/-- Where the inputs are those of the stamp, such a `.box` is used again. -/
theorem Torn.unsound {c : Cache ι} (hc : Torn manifestHash c) : ∃ i, ¬ Sound manifestHash ⟨i, c⟩ := by
  obtain ⟨b, a, f, t, hf, ht, ⟨i, hi⟩, hv⟩ := hc
  refine ⟨i, fun hsound => hv ?_⟩
  let run : FatRun := ⟨b, a, false, false, 1, f.mtime, 0⟩
  have hage : ageDays run.decidedAt f < run.refuseDays := by
    show (f.mtime - f.mtime).tdiv 86400 < 1
    simp
  have hreuse : World.decides manifestHash ⟨i, c⟩ run = .reuse :=
    reuse_iff.mpr ⟨rfl, f, t, hf, ht, hi, hage⟩
  obtain ⟨f', j, hf', hj, hcur, _⟩ := hsound.fat run hreuse
  have hff : some f = some f' := hf.symm.trans hf'
  cases hff
  have htext : (manifestHash b i).text = (manifestHash b j).text := congrArg Digest.text hcur.symm
  exact ⟨j, hj, hi.trans htext⟩

/-- A pair that is all there is not renamed away, nor over. -/
theorem apply_of_full {c : Cache ι} {b a : Str} {f : BoxFile ι} {t : Str}
    (hf : (c.pairs (.current b a)).box = some f) (ht : (c.pairs (.current b a)).hashFile = some t) (m : Move) :
    (m.apply c).pairs (.current b a) = c.pairs (.current b a) := by
  have hlegacy : ∀ name, Slot.current b a ≠ .legacy name := fun name h => Slot.noConfusion h
  cases m with
  | box name =>
    unfold Move.apply
    dsimp only
    split
    · rename_i g hg
      have hne : Slot.current b a ≠ .current name legacyArch := fun h => by
        rw [← h, hf] at hg
        exact absurd (moved_eq_some.mp hg).2 (by simp)
      rw [setPair_pairs, Function.update_of_ne hne, setPair_pairs, Function.update_of_ne (hlegacy name)]
    · rfl
  | hash name =>
    unfold Move.apply
    dsimp only
    split
    · rename_i g hg
      have hne : Slot.current b a ≠ .current name legacyArch := fun h => by
        rw [← h, ht] at hg
        exact absurd (moved_eq_some.mp hg).2 (by simp)
      rw [setPair_pairs, Function.update_of_ne hne, setPair_pairs, Function.update_of_ne (hlegacy name)]
    · rfl
  | base legacy new =>
    unfold Move.apply
    dsimp only
    split <;> rfl

theorem Torn.moves : ∀ {ms : List Move} {c : Cache ι}, Torn manifestHash c →
    Torn manifestHash (ms.foldl Move.apply c)
  | [], _, hc => hc
  | m :: ms, c, hc => by
    obtain ⟨b, a, f, t, hf, ht, hrest⟩ := hc
    have hsame := apply_of_full hf ht m
    have : Torn manifestHash (m.apply c) := ⟨b, a, f, t, by rw [hsame, hf], by rw [hsame, ht], hrest⟩
    exact this.moves

/-- The rename that is not clean leaves such a pair. -/
theorem torn_move {c : Cache ι} (hc : Kept manifestHash c) {m : Move} (hm : ¬ m.Clean manifestHash c) :
    Torn manifestHash (m.apply c) := by
  cases m with
  | box name =>
    simp only [Move.Clean] at hm
    push Not at hm
    obtain ⟨f, t, hf, ht, hv⟩ := hm
    have hpair : ((Move.box name).apply c).pairs (.current name legacyArch) = ⟨some f, some t⟩ := by
      simp only [Move.apply, hf, setPair_pairs, Function.update_self, ht]
    exact ⟨name, legacyArch, f, t, by rw [hpair], by rw [hpair], hc.stamped (.current name legacyArch) t ht, hv⟩
  | hash name =>
    simp only [Move.Clean] at hm
    push Not at hm
    obtain ⟨f, t, hf, ht, hv⟩ := hm
    have hpair : ((Move.hash name).apply c).pairs (.current name legacyArch) = ⟨some f, some t⟩ := by
      simp only [Move.apply, ht, setPair_pairs, Function.update_self, hf]
    exact ⟨name, legacyArch, f, t, by rw [hpair], by rw [hpair],
      hc.stamped (.legacy name) t (moved_eq_some.mp ht).1, hv⟩
  | base legacy new => exact absurd trivial hm

theorem torn_moves : ∀ {ms : List Move} {c : Cache ι}, Kept manifestHash c → ¬ MovesClean manifestHash c ms →
    Torn manifestHash (ms.foldl Move.apply c)
  | [], _, _, hms => absurd trivial hms
  | m :: ms, c, hc, hms => by
    by_cases hm : m.Clean manifestHash c
    · have hlater : ¬ MovesClean manifestHash (m.apply c) ms := fun h => hms ⟨hm, h⟩
      have hlast : Torn manifestHash (ms.foldl Move.apply (m.apply c)) := torn_moves (hc.move hm) hlater
      exact hlast
    · exact (torn_move hc hm).moves

/-- The build that is cut off next to another bake's stamp leaves such a pair. -/
theorem torn_fat {w : World ι} (hw : Kept manifestHash w.cache) {run : FatRun} {stop : ℕ}
    (he : ¬ FatClean manifestHash w run stop) :
    Torn manifestHash (w.step manifestHash (.fat run stop)).cache := by
  obtain ⟨n, hn⟩ := script_take packaging run.dryRun (w.decides manifestHash run) stop
  obtain ⟨hsd, hdo⟩ := packaging_order n
  have hpair : (w.step manifestHash (.fat run stop)).cache.pairs (.current run.box run.arch) =
      (packaging.take n).foldl (BuildCmd.apply w.inputs (w.currentHash manifestHash run.box) run.packagedAt)
        (w.pair run) := by
    show Function.update _ _ _ _ = _
    rw [Function.update_self, World.fatCmds, hn]
  rw [FatClean, World.fatCmds, hn, not_and_or] at he
  rcases he with he | he
  · push Not at he
    obtain ⟨ho, hd, ht⟩ := he
    obtain ⟨t, ht⟩ := Option.ne_none_iff_exists'.mp ht
    have hs : .stamp ∉ packaging.take n := fun hs => hd (hsd hs)
    refine ⟨run.box, run.arch, ⟨.torn, run.packagedAt⟩, t, ?_, ?_, hw.stamped _ t ht, ?_⟩
    · rw [hpair, apply_box, write_take, if_neg hd, if_pos ho]
    · rw [hpair, apply_hashFile, if_neg hs, ht]
    · intro ⟨i, hi, _⟩
      exact absurd hi (by simp)
  · push Not at he
    obtain ⟨hd, hs, t, ht, hne⟩ := he
    refine ⟨run.box, run.arch, ⟨.whole w.inputs, run.packagedAt⟩, t, ?_, ?_, hw.stamped _ t ht, ?_⟩
    · rw [hpair, apply_box, write_take, if_pos hd]
    · rw [hpair, apply_hashFile, if_neg hs, ht]
    · intro ⟨i, hi, hti⟩
      cases hi
      exact hne hti

/-- An event that is not clean is one edit away from a wrong box. -/
theorem unsound_of_not_clean {w : World ι} (hw : Kept manifestHash w.cache) {e : Event ι}
    (he : ¬ Clean manifestHash w e) :
    ∃ i, ¬ Sound manifestHash ((w.step manifestHash e).step manifestHash (.edit i)) := by
  cases e with
  | edit inputs => exact absurd trivial he
  | fat run stop => exact (torn_fat hw he).unsound
  | base run stop =>
    obtain ⟨n, hn⟩ := script_take basePackaging run.dryRun (w.decidesBase run) stop
    have hcut : ¬ BaseClean w run stop := he
    rw [BaseClean, World.baseCmds, hn, Classical.not_imp] at hcut
    have hbox : (w.step manifestHash (.base run stop)).cache.bases run.artifact = some ⟨.torn, run.packagedAt⟩ := by
      show Function.update _ _ _ _ = _
      rw [Function.update_self, World.baseCmds, hn, base_write_take, if_neg hcut.2, if_pos hcut.1]
    refine ⟨w.inputs, fun hsound => ?_⟩
    let again : BaseRun := { run with force := false }
    have hreuse : World.decidesBase ((w.step manifestHash (.base run stop)).step manifestHash (.edit w.inputs))
        again = .reuse := baseReuse_iff.mpr ⟨rfl, Option.isSome_iff_exists.mpr ⟨_, hbox⟩⟩
    obtain ⟨f, i, hf, hi⟩ := hsound.base again hreuse
    have hff : some ⟨.torn, run.packagedAt⟩ = some f := hbox.symm.trans hf
    cases hff
    exact absurd hi (by simp)
  | migrate fleet retired dryRun stop => exact (torn_moves hw he).unsound

/-! ### Runs -/

/-- The run lemma. -/
theorem Kept.run : ∀ {es : List (Event ι)} {w : World ι}, Kept manifestHash w.cache →
    CleanRun manifestHash w es → Kept manifestHash (w.run manifestHash es).cache
  | [], _, hw, _ => hw
  | _ :: _, _, hw, hes => (hw.step hes.1).run hes.2

theorem CleanRun.of_isPrefix : ∀ {pre es : List (Event ι)} {w : World ι}, pre <+: es →
    CleanRun manifestHash w es → CleanRun manifestHash w pre
  | [], _, _, _, _ => trivial
  | _ :: _, [], _, h, _ => absurd h (by simp)
  | e :: pre, e' :: es, w, h, hes => by
    obtain ⟨rfl, hpre⟩ := List.cons_prefix_cons.mp h
    exact ⟨hes.1, hes.2.of_isPrefix hpre⟩

theorem cleanRun_of_sound : ∀ {es : List (Event ι)} {w : World ι}, Kept manifestHash w.cache →
    (∀ pre, pre <+: es → ∀ i, Sound manifestHash (w.run manifestHash (pre ++ [.edit i]))) →
    CleanRun manifestHash w es
  | [], _, _, _ => trivial
  | e :: es, w, hw, h => by
    have hclean : Clean manifestHash w e := by
      by_contra he
      obtain ⟨i, hi⟩ := unsound_of_not_clean hw he
      exact hi (h [e] (List.prefix_append [e] es) i)
    refine ⟨hclean, cleanRun_of_sound (hw.step hclean) fun pre hpre i => ?_⟩
    exact h (e :: pre) (List.cons_prefix_cons.mpr ⟨rfl, hpre⟩) i

/-- **When boxes that are used again are finished bakes of the current inputs.**
From complete and matching pairs, a run of clean events decides soundly in
every state on its way, also after a further edit of the inputs; and no other
run does. -/
theorem clean_run_iff {w : World ι} (hw : Complete manifestHash w.cache) (es : List (Event ι)) :
    CleanRun manifestHash w es ↔ ∀ pre, pre <+: es → Sound manifestHash (w.run manifestHash pre) ∧
      ∀ i, Sound manifestHash (w.run manifestHash (pre ++ [.edit i])) := by
  constructor
  · intro hes pre hpre
    have hkept := hw.kept.run (hes.of_isPrefix hpre)
    refine ⟨hkept.sound _, fun i => ?_⟩
    have hedit : w.run manifestHash (pre ++ [.edit i]) = (w.run manifestHash pre).step manifestHash (.edit i) := by
      simp only [World.run, List.foldl_append, List.foldl_cons, List.foldl_nil]
    rw [hedit]
    exact hkept.sound i
  · intro h
    exact cleanRun_of_sound hw.kept fun pre hpre => (h pre hpre).2

end

/-! ### A cache of one box -/

/-- A digest of two inputs. -/
def hashOf (_ : Str) (i : Bool) : Digest where
  text := List.replicate 64 (if i then 'a' else 'b')
  length_eq := List.length_replicate
  one_line h := absurd (List.eq_of_mem_replicate h) (by cases i <;> decide)

/-- A box baked from `true`, and stamped; and a base box. -/
def fresh : World Bool where
  inputs := true
  cache :=
    { pairs := fun k => if k = .current "infra-ubuntu26".toList "x86_64".toList then
        ⟨some ⟨.whole true, 0⟩, some ((hashOf [] true).text ++ ['\n'])⟩ else ⟨none, none⟩
      bases := fun a => if a = "rhel-9-x86_64.box".toList then some ⟨.whole true, 0⟩ else none }

/-- Its run with `--rebuild-box`, or without. -/
def infraRun (force : Bool) : FatRun :=
  ⟨"infra-ubuntu26".toList, "x86_64".toList, force, false, 14, 86400, 90000⟩

/-- The base box's. -/
def rhelRun (force : Bool) : BaseRun := ⟨"9".toList, force, false, 90000⟩

theorem fresh_complete : Complete hashOf fresh.cache where
  pairs k := by
    by_cases hk : k = .current "infra-ubuntu26".toList "x86_64".toList
    · subst hk
      exact .inr ⟨_, _, rfl, true, rfl, substituted_stamp (hashOf [] true)⟩
    · exact .inl (if_neg hk)
  bases a f hf := by
    have h : (if a = "rhel-9-x86_64.box".toList then some ⟨.whole true, 0⟩ else none) = some f := hf
    split at h
    · cases h
      exact ⟨true, rfl⟩
    · exact absurd h (by simp)

/-- A forced build of it that finishes, and an edit after that. -/
theorem rebuilt_sound : Sound hashOf (fresh.run hashOf [.fat (infraRun true) 7, .edit false]) := by
  have hclean : CleanRun hashOf fresh [.fat (infraRun true) 7, .edit false] := by
    refine ⟨⟨fun _ hd => absurd ?_ hd, fun _ hs => absurd ?_ hs⟩, trivial, trivial⟩ <;> decide
  exact ((clean_run_iff fresh_complete _).mp hclean _ (List.prefix_refl _)).1

/-- A forced build that is cut off in its `tar` has the torn `.box` used again;
so has one of other inputs that is cut off before its stamp, once the inputs
are as they were; and so has a base box's. -/
theorem cut_off_box_reused : Complete hashOf fresh.cache ∧
    ¬ Sound hashOf (fresh.run hashOf [.fat (infraRun true) 2]) ∧
    ¬ Sound hashOf (fresh.run hashOf [.edit false, .fat (infraRun false) 3, .edit true]) ∧
    ¬ Sound hashOf (fresh.run hashOf [.base (rhelRun true) 2]) := by
  refine ⟨fresh_complete, fun h => ?_, fun h => ?_, fun h => ?_⟩
  · obtain ⟨f, i, hf, hi, _⟩ := h.fat (infraRun false) (by decide)
    cases hf
    exact absurd hi (by simp)
  · obtain ⟨f, i, hf, hi, hcur, _⟩ := h.fat (infraRun false) (by decide)
    cases hf
    cases hi
    exact absurd (congrArg Digest.text hcur) (by decide)
  · obtain ⟨f, i, hf, hi⟩ := h.base (rhelRun false) (by decide)
    cases hf
    exact absurd hi (by simp)

end BoxBuild
end Lab
end MqResiliency
