/-
# Which dependencies are staged

Every file that is staged has been checked, under its name there is the last of
that name, and a file with another hash raises and is removed (`Staged`,
`Refuses`). But the lock is reduced to one package for each name, the last: so
what the requirement lines state at their versions is staged if and only if it
is, by name and hash, among the files of those packages (`staged_iff`), as it is
where each name is locked once (`covers_of_single`).

Key theorems: `stageArts_spec`, `stageProjects_spec`, `staged_iff`,
`covers_of_single`, `runs_stageDeps`.
-/
import MqResiliency.Lab.StageDeps

namespace MqResiliency
namespace Lab
namespace StageDeps

open Py Component

/-! ### What is asked for -/

/-- A line `name==version`. -/
structure Requirement : Type where
  name : Str
  version : Str
deriving DecidableEq

/-- What a line requires: the version ends before a blank, a marker or a continuation. -/
def requirementOf (line : Str) : Option Requirement :=
  (reqName line).map fun name =>
    ⟨name, (line.drop (name.length + 2)).takeWhile fun c => ¬ Re.isSpace c ∧ c ≠ ';' ∧ c ≠ '\\'⟩

/-- The requirements of the files. -/
def requirements (texts : List Str) : List Requirement := texts.flatMap fun text => (splitlines text).filterMap requirementOf

/-- The lock's entry is of that name and version. -/
def Requirement.Names (r : Requirement) (e : Entry) : Prop := normalize e.name = normalize r.name ∧ e.version = some r.version

/-- The sdist and the installable wheels of a package. -/
def artifacts (pkg : Package) : List LockFile :=
  pkg.sdist.toList ++ pkg.wheels.filter fun w => wheelInstallable (filenameOf w) = some true

/-- The artifacts of the last entries of these names. -/
def picked (lock : List Entry) (projects : List Str) : List LockFile :=
  projects.flatMap fun project => ((entries lock).get? project).elim [] fun e => artifacts e.toPackage

/-- The last artifact of each file name. -/
def byName (arts : List LockFile) : Dict Str LockFile := Dict.ofList (arts.map fun art => (filenameOf art, art))

/-- The file is there with the artifact's hash. -/
def Present (sha256 : Str → Str) (deps : Dict Str Str) (art : LockFile) : Prop :=
  ∃ content, deps.get? (filenameOf art) = some content ∧ isHash (sha256 content) art.hash = true

/-- All that the lines require is there, and all that is reported was required. -/
structure Complete (sha256 : Str → Str) (lock : List Entry) (texts : List Str) (st : Stage) : Prop where
  listed : ∀ r ∈ requirements texts, ∀ e ∈ lock, r.Names e → ∀ art ∈ artifacts e.toPackage, Present sha256 st.deps art
  reported : ∀ f ∈ st.staged, ∃ r ∈ requirements texts, ∃ e ∈ lock, r.Names e ∧ ∃ art ∈ artifacts e.toPackage,
    filenameOf art = f ∧ Present sha256 st.deps art

/-- What the lines require is, by name and hash, what the last entries of the
required names list. -/
structure Covers (lock : List Entry) (texts : List Str) : Prop where
  listed : ∀ r ∈ requirements texts, ∀ e ∈ lock, r.Names e → ∀ art ∈ artifacts e.toPackage,
    ∃ last, (byName (picked lock (sortedStrs (wantedOf texts)))).get? (filenameOf art) = some last ∧ last.hash = art.hash
  reported : ∀ f last, (byName (picked lock (sortedStrs (wantedOf texts)))).get? f = some last →
    ∃ r ∈ requirements texts, ∃ e ∈ lock, r.Names e ∧ ∃ art ∈ artifacts e.toPackage, filenameOf art = f ∧ last.hash = art.hash

/-! ### Staging -/

theorem installable_eq : ∀ {ws ws' : List LockFile}, installable ws = some ws' →
    ws' = ws.filter fun w => wheelInstallable (filenameOf w) = some true
  | [], _, h => (Option.some.inj h).symm
  | w :: ws, ws', h => by
    unfold installable at h
    split at h
    · rename_i ok rest hok hrest
      rw [← Option.some.inj h, installable_eq hrest, List.filter_cons, hok]
      cases ok <;> simp
    · exact absurd h (by simp)

theorem artifacts_of_candidates {pkg : Package} {arts : List LockFile} (h : candidates pkg = some arts) :
    arts = artifacts pkg := by
  obtain ⟨ws, hws, rfl⟩ := Option.map_eq_some_iff.mp h
  rw [artifacts, installable_eq hws]

theorem isHash_iff {actual hash : Str} : isHash actual hash = true ↔ hash = "sha256:".toList ++ actual := decide_eq_true_iff

theorem byName_concat (arts : List LockFile) (art : LockFile) (f : Str) :
    (byName (arts ++ [art])).get? f = if f = filenameOf art then some art else (byName arts).get? f := by
  rw [byName, List.map_append, List.map_singleton, Dict.get?_ofList_concat]
  rfl

theorem filenameOf_of_byName {f : Str} {art : LockFile} : ∀ {arts : List LockFile}, (byName arts).get? f = some art →
    art ∈ arts ∧ filenameOf art = f := by
  intro arts
  induction arts using List.reverseRecOn with
  | nil => exact fun h => absurd h (by simp [byName, Dict.ofList])
  | append_singleton arts a ih =>
    intro h
    rw [byName_concat] at h
    split at h
    · rename_i hf
      obtain rfl : a = art := Option.some.inj h
      exact ⟨by simp, hf.symm⟩
    · exact ⟨List.mem_append_left _ (ih h).1, (ih h).2⟩

theorem exists_byName {art : LockFile} : ∀ {arts : List LockFile}, art ∈ arts →
    ∃ last, (byName arts).get? (filenameOf art) = some last := by
  intro arts hart
  refine Option.isSome_iff_exists.mp (Dict.get?_isSome.mpr ((Dict.mem_keys_ofList _).mpr ?_))
  exact List.mem_map.mpr ⟨(filenameOf art, art), List.mem_map.mpr ⟨art, hart, rfl⟩, rfl⟩

section
variable (sha256 : Str → Str) (fetch : Fetch)

/-- These artifacts are staged, each checked, and under each name there is the last. -/
structure Staged (done : List LockFile) (st : Stage) : Prop where
  staged : st.staged = done.map filenameOf
  calls : st.calls = done.length
  checked : ∀ f art, (byName done).get? f = some art → Present sha256 st.deps art
  only : ∀ f, (byName done).get? f = none → st.deps.get? f = none
  fetched : ∀ k art, done[k]? = some art → ∃ content, fetch k art.url = ⟨false, some content⟩ ∧
    isHash (sha256 content) art.hash = true

/-- If one of the fetched files has another hash, that is what is raised, and
the file is not left. -/
def Refuses (arts : List LockFile) (r : Stage × Option Failure) : Prop :=
  ∀ k art content, k < r.1.calls → arts[k]? = some art → fetch k art.url = ⟨false, some content⟩ →
    isHash (sha256 content) art.hash = false →
      r.2 = some (.mismatch (filenameOf art) (sha256 content) art.hash) ∧ r.1.deps.get? (filenameOf art) = none

variable {sha256 fetch} {done arts : List LockFile} {st : Stage}

theorem staged_nil : Staged sha256 fetch [] ⟨.empty, [], 0⟩ where
  staged := rfl
  calls := rfl
  checked f art h := absurd h (by simp [byName, Dict.ofList])
  only _ _ := rfl
  fetched k art h := absurd h (by simp)

/-- Nothing refused is among what is staged. -/
theorem Staged.refuses (h : Staged sha256 fetch done st) (rest : List LockFile) (failure : Option Failure) :
    Refuses sha256 fetch (done ++ rest) (st, failure) := by
  intro k art content hk hart hgot hhash
  have hlt : k < done.length := h.calls ▸ hk
  obtain ⟨content', hgot', hhash'⟩ := h.fetched k art (by rwa [List.getElem?_append_left hlt] at hart)
  obtain rfl : content = content' := by simpa using congrArg Fetched.left (hgot.symm.trans hgot')
  exact absurd hhash' (by simp [hhash])

/-- **One artifact more.** -/
theorem Staged.concat (h : Staged sha256 fetch done st) {art : LockFile} {content : Str}
    (hgot : fetch st.calls art.url = ⟨false, some content⟩) (hhash : isHash (sha256 content) art.hash = true) :
    Staged sha256 fetch (done ++ [art])
      { st.put (filenameOf art) (some content) with calls := st.calls + 1, staged := st.staged ++ [filenameOf art] } where
  staged := by rw [h.staged, List.map_append, List.map_singleton]
  calls := by simp [h.calls]
  checked f a ha := by
    rw [byName_concat] at ha
    split at ha
    · rw [← Option.some.inj ha]
      exact ⟨content, by simp [Stage.put, Dict.get?_set], hhash⟩
    · rename_i hf
      obtain ⟨content', hcontent', hhash'⟩ := h.checked f a ha
      have hname : filenameOf a ≠ filenameOf art := (filenameOf_of_byName ha).2 ▸ hf
      exact ⟨content', by simpa [Stage.put, Dict.get?_set, hname] using hcontent', hhash'⟩
  only f hf := by
    rw [byName_concat] at hf
    split at hf
    · exact absurd hf (by simp)
    · rename_i hne
      simpa [Stage.put, Dict.get?_set, hne] using h.only f hf
  fetched k a ha := by
    rcases Nat.lt_or_ge k done.length with hk | hk
    · exact h.fetched k a (by rwa [List.getElem?_append_left hk] at ha)
    · rw [List.getElem?_append_right hk, List.getElem?_singleton] at ha
      split at ha
      · rename_i hzero
        obtain rfl : art = a := Option.some.inj ha
        have heq : k = st.calls := by rw [h.calls]; omega
        exact ⟨content, heq ▸ hgot, hhash⟩
      · exact absurd ha (by simp)

/-- **What staging some artifacts comes to.** -/
theorem stageArts_spec (rest : List LockFile) : ∀ (arts done : List LockFile) (st : Stage), Staged sha256 fetch done st →
    (∀ st', stageArts sha256 fetch arts st = (st', none) → Staged sha256 fetch (done ++ arts) st') ∧
    Refuses sha256 fetch (done ++ (arts ++ rest)) (stageArts sha256 fetch arts st)
  | [], done, st, h => by
    refine ⟨fun st' heq => ?_, h.refuses _ _⟩
    rw [List.append_nil, ← (Prod.mk.inj heq).1]
    exact h
  | art :: arts, done, st, h => by
    have hcurrent : (done ++ (art :: arts ++ rest))[st.calls]? = some art := by
      rw [h.calls, List.getElem?_append_right (Nat.le_refl _), Nat.sub_self]
      rfl
    -- what comes before this artifact was not refused
    have hbefore : ∀ {st' : Stage} {failure : Failure}, st'.calls = st.calls + 1 →
        (∀ content, fetch st.calls art.url = ⟨false, some content⟩ → isHash (sha256 content) art.hash = false →
          some failure = some (.mismatch (filenameOf art) (sha256 content) art.hash) ∧ st'.deps.get? (filenameOf art) = none) →
        Refuses sha256 fetch (done ++ (art :: arts ++ rest)) (st', some failure) := by
      intro st' failure hcalls hlast k a content hk ha hgot hhash
      rcases Nat.lt_or_ge k st.calls with hlt | hge
      · have hno := (h.refuses (art :: arts ++ rest) none k a content hlt ha hgot hhash).1
        exact absurd hno (by simp)
      · obtain rfl : k = st.calls := by
          have hlt : k < st.calls + 1 := hcalls ▸ hk
          omega
        obtain rfl : art = a := Option.some.inj (hcurrent.symm.trans ha)
        exact hlast content hgot hhash
    unfold stageArts
    cases hgot : fetch st.calls art.url with
    | mk raised left =>
      cases raised with
      | true =>
        simp only [if_true]
        exact ⟨by simp, hbefore rfl fun content h' => absurd (hgot.symm.trans h') (by simp)⟩
      | false =>
        cases left with
        | none =>
          simp only [Bool.false_eq_true, if_false]
          exact ⟨by simp, hbefore rfl fun content h' => absurd (hgot.symm.trans h') (by simp)⟩
        | some content =>
          simp only [Bool.false_eq_true, if_false]
          cases hhash : isHash (sha256 content) art.hash with
          | true =>
            simp only [if_true]
            have ih := stageArts_spec rest arts (done ++ [art]) _ (h.concat hgot hhash)
            simp only [List.append_assoc, List.singleton_append] at ih
            exact ih
          | false =>
            simp only [Bool.false_eq_true, if_false]
            refine ⟨by simp, hbefore rfl fun content' h' _ => ?_⟩
            obtain rfl : content = content' := by simpa using hgot.symm.trans h'
            exact ⟨rfl, by simp [Stage.put, Dict.get?_erase]⟩

theorem picked_cons (lock : List Entry) (project : Str) (projects : List Str) :
    picked lock (project :: projects) =
      ((entries lock).get? project).elim [] (fun e => artifacts e.toPackage) ++ picked lock projects := rfl

/-- **What staging the projects comes to.** -/
theorem stageProjects_spec (lock : List Entry) : ∀ (projects : List Str) (done : List LockFile) (st : Stage),
    Staged sha256 fetch done st →
    (∀ st', stageProjects sha256 fetch lock projects st = (st', none) → Staged sha256 fetch (done ++ picked lock projects) st') ∧
    Refuses sha256 fetch (done ++ picked lock projects) (stageProjects sha256 fetch lock projects st)
  | [], done, st, h => by
    refine ⟨fun st' heq => ?_, h.refuses _ _⟩
    rw [picked, List.flatMap_nil, List.append_nil, ← (Prod.mk.inj heq).1]
    exact h
  | project :: projects, done, st, h => by
    unfold stageProjects
    cases he : (entries lock).get? project with
    | none => exact ⟨by simp, h.refuses _ _⟩
    | some e =>
      cases hc : candidates e.toPackage with
      | none => exact ⟨by simp [hc], by simpa only [hc] using h.refuses _ _⟩
      | some arts =>
        have harts := artifacts_of_candidates hc
        cases arts with
        | nil => exact ⟨by simp [hc], by simpa only [hc] using h.refuses _ _⟩
        | cons art arts =>
          obtain ⟨hstaged, hrefuses⟩ := stageArts_spec (picked lock projects) (art :: arts) done st h
          rw [picked_cons, he, Option.elim_some, ← harts]
          simp only [hc]
          cases hrun : stageArts sha256 fetch (art :: arts) st with
          | mk st' failure =>
            cases failure with
            | some failure =>
              rw [hrun] at hrefuses
              exact ⟨by simp, hrefuses⟩
            | none =>
              have ih := stageProjects_spec lock projects _ st' (hstaged st' hrun)
              rw [List.append_assoc] at ih
              exact ih

/-- What the build's staging comes to. -/
theorem staging_spec (lock : List Entry) (texts : List Str) :
    (∀ st, staging sha256 fetch lock texts = (st, none) →
      Staged sha256 fetch (picked lock (sortedStrs (wantedOf texts))) st) ∧
    Refuses sha256 fetch (picked lock (sortedStrs (wantedOf texts))) (staging sha256 fetch lock texts) := by
  unfold staging stageDeps
  split
  · refine ⟨by simp, ?_⟩
    exact Staged.refuses staged_nil (picked lock (sortedStrs (wantedOf texts))) _
  · exact stageProjects_spec lock (sortedStrs (wantedOf texts)) [] _ staged_nil

/-- A file that is there for the last artifact of its name is there for another
of that name if and only if the hashes are equal. -/
theorem Staged.present_iff (h : Staged sha256 fetch done st) (art : LockFile) :
    Present sha256 st.deps art ↔ ∃ last, (byName done).get? (filenameOf art) = some last ∧ last.hash = art.hash := by
  constructor
  · rintro ⟨content, hcontent, hhash⟩
    cases hlast : (byName done).get? (filenameOf art) with
    | none => exact absurd hcontent (by simp [h.only _ hlast])
    | some last =>
      obtain ⟨content', hcontent', hhash'⟩ := h.checked _ last hlast
      rw [(filenameOf_of_byName hlast).2, hcontent] at hcontent'
      obtain rfl : content = content' := Option.some.inj hcontent'
      exact ⟨last, rfl, (isHash_iff.mp hhash').trans (isHash_iff.mp hhash).symm⟩
  · rintro ⟨last, hlast, heq⟩
    obtain ⟨content, hcontent, hhash⟩ := h.checked _ last hlast
    rw [(filenameOf_of_byName hlast).2] at hcontent
    exact ⟨content, hcontent, heq ▸ hhash⟩

/-- **When all that is required is staged**: where the staging succeeds, if and
only if the last entries of the required names cover what the lines require. A
fetched file with another hash raises, and is not left. -/
theorem staged_iff (sha256 : Str → Str) (fetch : Fetch) (lock : List Entry) (texts : List Str) :
    (∀ st, staging sha256 fetch lock texts = (st, none) → (Complete sha256 lock texts st ↔ Covers lock texts)) ∧
      Refuses sha256 fetch (picked lock (sortedStrs (wantedOf texts))) (staging sha256 fetch lock texts) := by
  refine ⟨fun st hst => ?_, (staging_spec lock texts).2⟩
  have h := (staging_spec lock texts).1 st hst
  have hnames : ∀ f, f ∈ st.staged ↔ ∃ last, (byName (picked lock (sortedStrs (wantedOf texts)))).get? f = some last := by
    intro f
    rw [h.staged, List.mem_map]
    constructor
    · rintro ⟨art, hart, rfl⟩
      exact exists_byName hart
    · rintro ⟨last, hlast⟩
      exact ⟨last, filenameOf_of_byName hlast⟩
  constructor
  · intro hcomplete
    refine ⟨fun r hr e he hre art hart => (h.present_iff art).mp (hcomplete.listed r hr e he hre art hart), fun f last hlast => ?_⟩
    obtain ⟨r, hr, e, he, hre, art, hart, rfl, hpresent⟩ := hcomplete.reported f ((hnames f).mpr ⟨last, hlast⟩)
    obtain ⟨last', hlast', heq⟩ := (h.present_iff art).mp hpresent
    obtain rfl : last = last' := Option.some.inj (hlast.symm.trans hlast')
    exact ⟨r, hr, e, he, hre, art, hart, rfl, heq⟩
  · intro hcovers
    refine ⟨fun r hr e he hre art hart => (h.present_iff art).mpr (hcovers.listed r hr e he hre art hart), fun f hf => ?_⟩
    obtain ⟨last, hlast⟩ := (hnames f).mp hf
    obtain ⟨r, hr, e, he, hre, art, hart, rfl, heq⟩ := hcovers.reported f last hlast
    exact ⟨r, hr, e, he, hre, art, hart, rfl, (h.present_iff art).mpr ⟨last, hlast, heq⟩⟩

end

/-! ### Names that are locked once -/

section
variable {lock : List Entry} {texts : List Str}

theorem mem_wantedOf {project : Str} : project ∈ wantedOf texts ↔ ∃ r ∈ requirements texts, normalize r.name = project := by
  have hline : ∀ line, (reqName line).map normalize = (requirementOf line).map fun r : Requirement => normalize r.name := by
    intro line
    rw [requirementOf, Option.map_map]
    rfl
  simp only [wantedOf, requirements, pinned, List.mem_dedup, List.mem_flatMap, List.mem_map, List.mem_filterMap]
  constructor
  · rintro ⟨text, htext, name, ⟨line, hline', hname⟩, rfl⟩
    have hsome := hline line
    rw [hname, Option.map_some] at hsome
    obtain ⟨r, hr, heq⟩ := Option.map_eq_some_iff.mp hsome.symm
    exact ⟨r, ⟨text, htext, line, hline', hr⟩, heq⟩
  · rintro ⟨r, ⟨text, htext, line, hline', hr⟩, rfl⟩
    have hsome := hline line
    rw [hr, Option.map_some] at hsome
    obtain ⟨name, hname, heq⟩ := Option.map_eq_some_iff.mp hsome
    exact ⟨text, htext, name, ⟨line, hline', hname⟩, heq⟩

theorem of_entries {project : Str} {e : Entry} (h : (entries lock).get? project = some e) :
    e ∈ lock ∧ normalize e.name = project := by
  obtain ⟨before, after, heq, -⟩ := (Dict.get?_ofList_eq_some _).mp h
  have hmem : (project, e) ∈ lock.map fun e : Entry => (normalize e.name, e) := by simp [heq]
  obtain ⟨e', he', heq'⟩ := List.mem_map.mp hmem
  obtain ⟨hname, rfl⟩ := Prod.ext_iff.mp heq'
  exact ⟨he', hname⟩

theorem exists_entries {e : Entry} (h : e ∈ lock) : ∃ e', (entries lock).get? (normalize e.name) = some e' := by
  refine Option.isSome_iff_exists.mp (Dict.get?_isSome.mpr ((Dict.mem_keys_ofList _).mpr ?_))
  exact List.mem_map.mpr ⟨(normalize e.name, e), List.mem_map.mpr ⟨e, h, rfl⟩, rfl⟩

theorem mem_picked {art : LockFile} : art ∈ picked lock (sortedStrs (wantedOf texts)) ↔
    ∃ r ∈ requirements texts, ∃ e, (entries lock).get? (normalize r.name) = some e ∧ art ∈ artifacts e.toPackage := by
  simp only [picked, List.mem_flatMap, sortedStrs, List.mem_insertionSort, mem_wantedOf]
  constructor
  · rintro ⟨_, ⟨r, hr, rfl⟩, hart⟩
    cases he : (entries lock).get? (normalize r.name) with
    | none => exact absurd hart (by simp [he])
    | some e => exact ⟨r, hr, e, he, by simpa [he] using hart⟩
  · rintro ⟨r, hr, e, he, hart⟩
    exact ⟨_, ⟨r, hr, rfl⟩, by simpa [he] using hart⟩

/-- **Where each name is locked once**, at the version that is required, and a
file name stands for one hash, all that is required is staged. -/
theorem covers_of_single (honce : ∀ e ∈ lock, ∀ e' ∈ lock, normalize e.name = normalize e'.name → e = e')
    (hversion : ∀ r ∈ requirements texts, ∀ e ∈ lock, normalize e.name = normalize r.name → e.version = some r.version)
    (hfile : ∀ e ∈ lock, ∀ e' ∈ lock, ∀ art ∈ artifacts e.toPackage, ∀ art' ∈ artifacts e'.toPackage,
      filenameOf art = filenameOf art' → art.hash = art'.hash) : Covers lock texts where
  listed r hr e he hre art hart := by
    obtain ⟨e', he'⟩ := exists_entries he
    obtain ⟨hmem', hname'⟩ := of_entries he'
    obtain rfl : e' = e := honce e' hmem' e he hname'
    have hpicked : art ∈ picked lock (sortedStrs (wantedOf texts)) := mem_picked.mpr ⟨r, hr, e', hre.1 ▸ he', hart⟩
    obtain ⟨last, hlast⟩ := exists_byName hpicked
    obtain ⟨hin, hfilename⟩ := filenameOf_of_byName hlast
    obtain ⟨_, _, e₁, he₁, hart₁⟩ := mem_picked.mp hin
    exact ⟨last, hlast, hfile e₁ (of_entries he₁).1 e' he last hart₁ art hart hfilename⟩
  reported f last hlast := by
    obtain ⟨hin, hfilename⟩ := filenameOf_of_byName hlast
    obtain ⟨r, hr, e, he, hart⟩ := mem_picked.mp hin
    obtain ⟨hmem, hname⟩ := of_entries he
    exact ⟨r, hr, e, hmem, ⟨hname, hversion r hr e hmem hname⟩, last, hart, hfilename, rfl⟩

end

/-! ### The build's program -/

section
open Prog
variable (sha256 : Str → Str) (fetch : Fetch)

/-- The dependencies in the directory are these. -/
def Shows (d : Dir) (deps : Dict Str Str) : Prop := ∀ f, d.get? (.dep f) = deps.get? f

/-- The program may return, or raise if there is a failure, with these
dependencies in the directory. -/
def Ends (p : Play Unit) (stage : Str) (s : Store) (r : Stage × Option Failure) : Prop :=
  ∃ s' d', s'.dirs.get? stage = some d' ∧ Shows d' r.1.deps ∧ match r.2 with
    | none => Reach answers (p, s) (.ret (), s')
    | some _ => ∃ e, Reach answers (p, s) (.raise e, s')

variable {sha256 fetch} {stage : Str} {s : Store} {d : Dir} {st : Stage}

theorem Shows.put (h : Shows d st.deps) (filename : Str) (left : Option Str) :
    ∃ d', Shows d' (st.put filename left).deps ∧ ∀ content, left = some content → d' = d.set (.dep filename) content := by
  cases left with
  | none =>
    refine ⟨d.erase (.dep filename), fun f => ?_, by simp⟩
    simp [Stage.put, Dict.get?_erase, h f]
  | some content =>
    refine ⟨d.set (.dep filename) content, fun f => ?_, fun content' h => by rw [Option.some.inj h]⟩
    simp [Stage.put, Dict.get?_set, h f]

theorem get?_put (s : Store) (stage : Str) (d : Dir) : (s.put stage d).dirs.get? stage = some d := by
  rw [Store.put, Dict.get?_set, if_pos rfl]

theorem ends_ret {p : Play Unit} {s' : Store} {d' : Dir} {st' : Stage} (hd' : s'.dirs.get? stage = some d')
    (hshows : Shows d' st'.deps) (h : Reach answers (p, s) (.ret (), s')) : Ends p stage s (st', none) :=
  ⟨s', d', hd', hshows, h⟩

theorem ends_raise {p : Play Unit} {s' : Store} {d' : Dir} {st' : Stage} {e : Component.Failure} {failure : Failure}
    (hd' : s'.dirs.get? stage = some d') (hshows : Shows d' st'.deps) (h : Reach answers (p, s) (.raise e, s')) :
    Ends p stage s (st', some failure) :=
  ⟨s', d', hd', hshows, e, h⟩

/-- Whatever is there, the program may end as `f` says. -/
def Runs (p : Play Unit) (stage : Str) (f : Stage → Stage × Option Failure) : Prop :=
  ∀ s d st, s.dirs.get? stage = some d → Shows d st.deps → Ends p stage s (f st)

theorem runs_pure : Runs (pure ()) stage fun st => (st, none) := fun s d _ hd hst => ⟨s, d, hd, hst, .refl⟩

theorem runs_throw (e : Component.Failure) (failure : Failure) : Runs (throw e) stage fun st => (st, some failure) :=
  fun s d _ hd hst => ⟨s, d, hd, hst, e, .refl⟩

theorem Ends.head {p p' : Play Unit} {s' : Store} {r : Stage × Option Failure} (h : Reach answers (p, s) (p', s'))
    (hr : Ends p' stage s' r) : Ends p stage s r := by
  obtain ⟨s'', d'', hd'', hst'', hend⟩ := hr
  refine ⟨s'', d'', hd'', hst'', ?_⟩
  cases hfailure : r.2 with
  | none =>
    simp only [hfailure] at hend ⊢
    exact h.trans hend
  | some failure =>
    simp only [hfailure] at hend ⊢
    exact ⟨hend.choose, h.trans hend.choose_spec⟩

/-- One program after the other, as long as nothing fails. -/
theorem Runs.andThen {p q : Play Unit} {f g h : Stage → Stage × Option Failure} (hp : Runs p stage f) (hq : Runs q stage g)
    (hh : ∀ st, h st = match f st with
      | (st', none) => g st'
      | (st', some failure) => (st', some failure)) : Runs (p >>= fun _ => q) stage h := by
  intro s d st hd hst
  obtain ⟨s', d', hd', hst', hend⟩ := hp s d st hd hst
  rw [hh]
  cases hf : f st with
  | mk st' failure =>
    rw [hf] at hst' hend
    cases failure with
    | none =>
      have hreach : Reach answers (p >>= fun _ => q, s) (q, s') := reach_then hend fun _ => q
      exact (hq s' d' st' hd' hst').head hreach
    | some failure =>
      obtain ⟨e, he⟩ := hend
      exact ⟨s', d', hd', hst', e, reach_then he fun _ => q⟩

theorem stageDep_eq (art : LockFile) : stageDep sha256 stage art =
    .call (Cmd.fetch stage art.url (.dep (filenameOf art))) fun ok =>
      (if ok then .ret () else .raise .os : Play Unit).bind fun _ => .call Cmd.look fun s =>
        if isHash (sha256 ((s.text stage (.dep (filenameOf art))).getD [])) art.hash then .ret ()
        else .call (Cmd.unlink stage (.dep (filenameOf art))) fun ok =>
          (if ok then .ret () else .raise .os : Play Unit).bind fun _ => .raise .component := rfl

/-- A fetch that fails may leave anything. -/
theorem ends_fetch {k : Bool → Play Unit} (hk : k false = .raise .os) {url : Str} {f : File} {d' : Dir} {st' : Stage}
    {failure : Failure} (hshows : Shows d' st'.deps) :
    Ends (.call (Cmd.fetch stage url f) k) stage s (st', some failure) := by
  have hfetch : answers s (.fetch stage url f) false (s.put stage d') := ⟨d', rfl⟩
  have hstep : Reach answers (Prog.call (Cmd.fetch stage url f) k, s) (k false, s.put stage d') := .single (.call hfetch)
  exact ends_raise (get?_put s stage d') hshows (hk ▸ hstep)

/-- **One artifact**: the program does what `stageArts` does. -/
theorem runs_stageDep (art : LockFile) : Runs (stageDep sha256 stage art) stage (stageArts sha256 fetch [art]) := by
  intro s d st hd hst
  rw [stageDep_eq]
  obtain ⟨d', hshows, hcontent⟩ := hst.put (filenameOf art) (fetch st.calls art.url).left
  unfold stageArts
  cases hgot : fetch st.calls art.url with
  | mk raised left =>
    rw [hgot] at hshows hcontent
    cases raised with
    | true => exact ends_fetch rfl hshows
    | false =>
      cases left with
      | none => exact ends_fetch rfl hshows
      | some content =>
        obtain rfl := hcontent content rfl
        have hfetch : answers s (.fetch stage art.url (.dep (filenameOf art))) true
            (s.put stage (d.set (.dep (filenameOf art)) content)) := ⟨content, d, hd, rfl⟩
        have hlook : answers (s.put stage (d.set (.dep (filenameOf art)) content)) .look
            (s.put stage (d.set (.dep (filenameOf art)) content)) (s.put stage (d.set (.dep (filenameOf art)) content)) :=
          ⟨rfl, rfl⟩
        have hget : ((s.put stage (d.set (.dep (filenameOf art)) content)).text stage (.dep (filenameOf art))).getD [] = content := by
          simp [Store.text, get?_put, Dict.get?_set]
        -- the file is fetched and read
        refine Ends.head (.head (.call hfetch) (.single (.call hlook))) ?_
        rw [hget]
        simp only [Bool.false_eq_true, if_false]
        cases isHash (sha256 content) art.hash with
        | true => exact ends_ret (get?_put s stage _) hshows .refl
        | false =>
          have hunlink : answers (s.put stage (d.set (.dep (filenameOf art)) content))
              (.unlink stage (.dep (filenameOf art))) true
              ((s.put stage (d.set (.dep (filenameOf art)) content)).put stage
                ((d.set (.dep (filenameOf art)) content).erase (.dep (filenameOf art)))) :=
            ⟨_, get?_put s stage _, rfl⟩
          simp only [Bool.false_eq_true, if_false]
          refine ends_raise (e := .component) (get?_put _ stage _) (fun f => ?_) (.head (.call hunlink) .refl)
          rw [Dict.get?_erase, Stage.put, Dict.get?_erase, ← hshows f]
          simp

theorem stageArts_cons (art : LockFile) (arts : List LockFile) (st : Stage) :
    stageArts sha256 fetch (art :: arts) st = match stageArts sha256 fetch [art] st with
      | (st', none) => stageArts sha256 fetch arts st'
      | (st', some failure) => (st', some failure) := by
  simp only [stageArts]
  cases fetch st.calls art.url with
  | mk raised left =>
    cases raised with
    | true => rfl
    | false =>
      cases left with
      | none => rfl
      | some content => cases h : isHash (sha256 content) art.hash <;> simp [h]

theorem runs_stageArts : ∀ arts : List LockFile,
    Runs (each (stageDep sha256 stage) arts) stage (stageArts sha256 fetch arts)
  | [] => runs_pure
  | art :: arts => (runs_stageDep art).andThen (runs_stageArts arts) (stageArts_cons art arts)

theorem get?_packages (lock : List Entry) (project : Str) :
    (packages (lock.map Entry.toPackage)).get? project = ((entries lock).get? project).map Entry.toPackage := by
  induction lock using List.reverseRecOn with
  | nil => rfl
  | append_singleton lock e ih =>
    rw [packages, entries, List.map_append, List.map_append, List.map_append, List.map_singleton, List.map_singleton,
      List.map_singleton, Dict.get?_ofList_concat, Dict.get?_ofList_concat]
    split
    · rfl
    · exact ih

/-- **The projects**: the program does what `stageProjects` does. -/
theorem runs_stageProjects (lock : List Entry) : ∀ projects : List Str,
    Runs (each (stageProject sha256 (lock.map Entry.toPackage) stage) projects) stage (stageProjects sha256 fetch lock projects)
  | [] => runs_pure
  | project :: projects => by
    have hone : Runs (stageProject sha256 (lock.map Entry.toPackage) stage project) stage
        (stageProjects sha256 fetch lock [project]) := by
      intro s d st hd hst
      simp only [stageProject, stageProjects, get?_packages]
      cases (entries lock).get? project with
      | none => exact runs_throw _ _ s d st hd hst
      | some e =>
        simp only [Option.map_some]
        cases candidates e.toPackage with
        | none => exact runs_throw _ _ s d st hd hst
        | some arts =>
          cases arts with
          | nil => exact runs_throw _ _ s d st hd hst
          | cons art arts =>
            have hend : Ends _ stage s (stageArts sha256 fetch (art :: arts) st) := runs_stageArts (art :: arts) s d st hd hst
            simp only
            cases h : stageArts sha256 fetch (art :: arts) st with
            | mk st' failure =>
              rw [h] at hend
              cases failure <;> exact hend
    refine hone.andThen (runs_stageProjects lock projects) fun st => ?_
    simp only [stageProjects]
    cases (entries lock).get? project with
    | none => rfl
    | some e =>
      simp only
      cases candidates e.toPackage with
      | none => rfl
      | some arts =>
        cases arts with
        | nil => rfl
        | cons art arts =>
          simp only
          cases stageArts sha256 fetch (art :: arts) st with
          | mk st' failure => cases failure <;> rfl

/-- **The build's program stages what `stageDeps` does**: whatever the fetches
come to, it may end in the same way, with the same dependencies. -/
theorem runs_stageDeps (lock : List Entry) (wanted : List Str) :
    Runs (Component.stageDeps sha256 (lock.map Entry.toPackage) wanted stage) stage (stageDeps sha256 fetch lock wanted) := by
  have hkeys : ∀ project, project ∈ (packages (lock.map Entry.toPackage)).keys ↔ project ∈ (entries lock).keys := by
    intro project
    rw [← Dict.get?_isSome, ← Dict.get?_isSome, get?_packages, Option.isSome_map]
  have hmissing : (wanted.any fun project => project ∉ (packages (lock.map Entry.toPackage)).keys) = true ↔
      notLocked lock wanted ≠ [] := by
    rw [List.any_eq_true, notLocked, sortedStrs, ne_eq, List.eq_nil_iff_forall_not_mem, not_forall]
    simp only [not_not, List.mem_insertionSort, List.mem_filter, decide_eq_true_eq, hkeys]
  unfold Component.stageDeps stageDeps
  by_cases h : notLocked lock wanted ≠ []
  · rw [if_pos (hmissing.mpr h)]
    simp only [if_pos h]
    exact runs_throw _ _
  · rw [if_neg fun h' => h (hmissing.mp h')]
    simp only [if_neg h]
    exact runs_stageProjects lock (sortedStrs wanted)

end

/-! ### A name that is locked twice -/

/-- The hash of an empty file. -/
def emptyHash : Str := "e3b0c44298fc1c149afbf4c8996fb92427ae41e4649b934ca495991b7852b855".toList

/-- `foo` with an empty sdist. -/
def fooAt (version : String) : Entry where
  name := "foo".toList
  sdist := some ⟨"https://files/foo-".toList ++ version.toList ++ ".tar.gz".toList, "sha256:".toList ++ emptyHash⟩
  wheels := []
  version := some version.toList

def serveEmpty : Fetch := fun _ _ => ⟨false, some []⟩

def forked : List Str := ["foo==1.0 ; sys_platform == 'darwin'\nfoo==2.0 ; sys_platform == 'linux'\n".toList]

theorem staged_single : Complete (fun _ => emptyHash) [fooAt "1.0"] ["foo==1.0 \\\n".toList]
    (staging (fun _ => emptyHash) serveEmpty [fooAt "1.0"] ["foo==1.0 \\\n".toList]).1 := by
  have hnone : (staging (fun _ => emptyHash) serveEmpty [fooAt "1.0"] ["foo==1.0 \\\n".toList]).2 = none := by
    decide +kernel
  refine ((staged_iff (fun _ => emptyHash) serveEmpty [fooAt "1.0"] ["foo==1.0 \\\n".toList]).1 _
    (Prod.ext rfl hnone)).mpr ?_
  have hreq : requirements ["foo==1.0 \\\n".toList] = [⟨"foo".toList, "1.0".toList⟩] := by decide +kernel
  have hsdist : artifacts (fooAt "1.0").toPackage = (fooAt "1.0").sdist.toList := List.append_nil _
  refine covers_of_single (by simp) ?_ ?_
  · intro r hr e he _
    rw [hreq, List.mem_singleton] at hr
    rw [List.mem_singleton] at he
    rw [hr, he]
    rfl
  · intro e he e' he' art hart art' hart' _
    rw [List.mem_singleton] at he he'
    rw [he, hsdist] at hart
    rw [he', hsdist] at hart'
    rw [Option.some.inj (Option.mem_toList.mp hart).symm, Option.some.inj (Option.mem_toList.mp hart').symm]

/-- Of the two versions that are required, the first is not staged. -/
theorem first_version_missing : ¬ ∀ (fetch : Fetch) (lock : List Entry) (texts : List Str) (st : Stage),
    staging (fun _ => emptyHash) fetch lock texts = (st, none) → Complete (fun _ => emptyHash) lock texts st := by
  intro h
  have hnone : (staging (fun _ => emptyHash) serveEmpty [fooAt "1.0", fooAt "2.0"] forked).2 = none := by
    decide +kernel
  have hcomplete := h serveEmpty [fooAt "1.0", fooAt "2.0"] forked
    (staging (fun _ => emptyHash) serveEmpty [fooAt "1.0", fooAt "2.0"] forked).1 (Prod.ext rfl hnone)
  have hreq : (⟨"foo".toList, "1.0".toList⟩ : Requirement) ∈ requirements forked := by decide +kernel
  have hart : (⟨"https://files/foo-1.0.tar.gz".toList, "sha256:".toList ++ emptyHash⟩ : LockFile) ∈
      artifacts (fooAt "1.0").toPackage := by
    have hsdist : artifacts (fooAt "1.0").toPackage = (fooAt "1.0").sdist.toList := List.append_nil _
    have hurl : "https://files/foo-".toList ++ "1.0".toList ++ ".tar.gz".toList = "https://files/foo-1.0.tar.gz".toList := by
      decide +kernel
    rw [hsdist, fooAt, hurl]
    exact List.mem_singleton.mpr rfl
  obtain ⟨content, hcontent, -⟩ := hcomplete.listed _ hreq (fooAt "1.0") (by simp) ⟨rfl, rfl⟩ _ hart
  have habsent : (staging (fun _ => emptyHash) serveEmpty [fooAt "1.0", fooAt "2.0"] forked).1.deps.get?
      (filenameOf ⟨"https://files/foo-1.0.tar.gz".toList, "sha256:".toList ++ emptyHash⟩) = none := by decide +kernel
  rw [habsent] at hcontent
  exact absurd hcontent (by simp)

end StageDeps
end Lab
end MqResiliency
