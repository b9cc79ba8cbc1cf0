/-
# Only whole artifacts are installed

What `BUILD.json` stands for: a directory that is no staging directory and has
one is what a build staged as a whole (`Inv`). A build keeps this at every
operation but two kinds: where `rmtree` removes another file of an artifact
before its `BUILD.json` (`Careful` says that it does not), a torn directory is
still found; and `resolve_artifact`, whose glob sees the staging directories,
may return one of them (`Call.Clear` says that there is nothing to return). In
a run without the two, cut off anywhere, whatever is found is whole
(`sound_of_reached`).

Key theorems: `sure_stageFiles`, `sure_publish`, `sure_run`,
`sound_of_reached`.
-/
import MqResiliency.Lab.Component

namespace MqResiliency
namespace Lab
namespace Component

open Py

/-! ### Names -/

/-- Is it the name of a staging directory? -/
def isPartial (name : Str) : Bool := ".partial".toList.isSuffixOf name

theorem isPartial_stage (src : Source) : isPartial src.stage := by
  have h : ".partial".toList <:+ src.stage := List.suffix_append _ _
  simpa [isPartial, List.isSuffixOf_iff_suffix] using h

/-- What ends like a tree's hash is no staging directory. -/
theorem isPartial_eq_false {path : Str} {c : Char} (h : path.getLast? = some c) (hc : c ∈ "0123456789abcdef".toList) :
    isPartial path = false := by
  by_contra hp
  obtain ⟨before, rfl⟩ : ".partial".toList <:+ path := by simpa [isPartial, List.isSuffixOf_iff_suffix] using hp
  have hlast : (before ++ ".partial".toList).getLast? = some 'l' := by simp
  obtain rfl : 'l' = c := Option.some.inj (hlast.symm.trans h)
  revert hc
  decide

/-- The name ends with a tree. -/
def EndsWith (path : Str) (t : Tree) : Prop := '+' :: t.text <:+ path

theorem EndsWith.getLast {path : Str} {t : Tree} (h : EndsWith path t) :
    ∃ c, path.getLast? = some c ∧ c ∈ "0123456789abcdef".toList := by
  obtain ⟨before, rfl⟩ := h
  refine ⟨t.text.getLast t.ne_nil, ?_, t.hex _ (List.getLast_mem _)⟩
  rw [List.getLast?_append_of_ne_nil _ (by simp), List.getLast?_cons_of_ne_nil t.ne_nil, List.getLast?_eq_some_getLast]

theorem endsWith_final (src : Source) : EndsWith src.final src.tree := List.suffix_append _ _

theorem EndsWith.isPartial {path : Str} {t : Tree} (h : EndsWith path t) : isPartial path = false := by
  obtain ⟨c, hlast, hc⟩ := h.getLast
  exact isPartial_eq_false hlast hc

theorem isSpace_of_hex {c : Char} (hc : c ∈ "0123456789abcdef".toList) : Re.isSpace c = false := by
  revert c
  decide

theorem dropWhile_append_pos {p : Char → Bool} {c : Char} (hc : p c = false) (before rest : Str) :
    ∃ kept, (before ++ c :: rest).dropWhile p = kept ++ c :: rest := by
  rw [List.dropWhile_append]
  split
  · exact ⟨[], by rw [List.dropWhile_cons_of_neg (by simp [hc]), List.nil_append]⟩
  · exact ⟨_, rfl⟩

/-- What `CURRENT` says after `_set_current` is no staging directory. -/
theorem isPartial_trim {path : Str} {t : Tree} (h : EndsWith path t) :
    Component.isPartial (trim (path ++ ['\n'])) = false := by
  obtain ⟨c, hlast, hc⟩ := h.getLast
  obtain ⟨before, rfl⟩ : ∃ before, path = before ++ [c] := List.getLast?_eq_some_iff.mp hlast
  have hspace : Re.isSpace c = false := isSpace_of_hex hc
  obtain ⟨kept, hkept⟩ := dropWhile_append_pos hspace before ['\n']
  have htrim : trim (before ++ [c] ++ ['\n']) = kept ++ [c] := by
    have hassoc : kept ++ c :: ['\n'] = kept ++ [c] ++ ['\n'] := by simp
    unfold trim
    rw [List.append_assoc, List.singleton_append, hkept, hassoc, List.rdropWhile_concat_pos _ _ _ (by decide),
      List.rdropWhile_concat_neg _ _ _ (by simp [hspace])]
  rw [htrim]
  exact isPartial_eq_false (by simp) hc

/-! ### Whole artifacts -/

section
variable (sha256 : Str → Str)

/-- The lock has the file. -/
def Locked (lock : List Package) (art : LockFile) : Prop := ∃ pkg ∈ lock, art ∈ pkg.sdist.toList ++ pkg.wheels

/-- A dependency is there, and its hash is the lock's. -/
def Checked (lock : List Package) (d : Dir) (filename : Str) : Prop :=
  ∃ art text, Locked lock art ∧ filenameOf art = filename ∧ d.get? (.dep filename) = some text ∧
    isHash (sha256 text) art.hash

/-- All files of a project are there. -/
def Supplied (lock : List Package) (d : Dir) (project : Str) : Prop :=
  ∃ pkg arts, (packages lock).get? project = some pkg ∧ candidates pkg = some arts ∧ arts ≠ [] ∧
    ∀ art ∈ arts, Checked sha256 lock d (filenameOf art)

/-- The wheel and the requirements. -/
structure Exported (src : Source) (d : Dir) : Prop where
  wheel : ∃ w, d.get? (.wheel w) ≠ none
  requirements : d.get? .requirements ≠ none
  buildRequirements : src.buildGroup → d.get? .buildRequirements ≠ none

/-- The wheel, the requirements and what they name. -/
structure Stocked (src : Source) (d : Dir) : Prop extends Exported src d where
  deps : ∀ project ∈ wanted d, Supplied sha256 src.lock d project

/-- All that is staged before `BUILD.json`. -/
structure Filled (src : Source) (d : Dir) : Prop extends Stocked sha256 src d where
  units : ∀ us, src.units = some us → ∀ u ∈ us.items, d.get? (.unit u.1) = some u.2

/-- The staging has everything. -/
structure Complete (b : Staged) : Prop extends Filled sha256 b.source b.files where
  info : ∃ commit builtAt, b.files.get? .buildJson = some (infoText b.source commit builtAt)

/-- The artifact is a directory with all that one build staged for the version
and the tree that its name states. -/
def Finished (s : Store) (a : Artifact) : Prop :=
  ∃ b ∈ s.staged, Complete sha256 b ∧ a = ⟨b.source.version, b.source.tree.text, b.source.final⟩ ∧
    s.dirs.get? a.path = some b.files

variable {sha256} {src : Source} {lock : List Package} {d d' : Dir} {project filename : Str}

theorem Checked.mono (hd : ∀ g, d.get? (.dep g) = d'.get? (.dep g)) (h : Checked sha256 lock d filename) :
    Checked sha256 lock d' filename := by
  obtain ⟨art, text, hlocked, hname, hget, hhash⟩ := h
  exact ⟨art, text, hlocked, hname, hd filename ▸ hget, hhash⟩

theorem Supplied.mono (hd : ∀ g, Checked sha256 lock d g → Checked sha256 lock d' g)
    (h : Supplied sha256 lock d project) : Supplied sha256 lock d' project := by
  obtain ⟨pkg, arts, hpkg, harts, hne, hall⟩ := h
  exact ⟨pkg, arts, hpkg, harts, hne, fun art hart => hd _ (hall art hart)⟩

/-- Is it a unit, or `BUILD.json`? -/
def File.isLate : File → Bool
  | .unit _ | .buildJson => true
  | _ => false

theorem wanted_congr (hd : ∀ f, f.isLate = false → d'.get? f = d.get? f) : wanted d' = wanted d := by
  unfold wanted
  rw [hd .requirements rfl, hd .buildRequirements rfl]

theorem Stocked.congr (hd : ∀ f, f.isLate = false → d'.get? f = d.get? f) (h : Stocked sha256 src d) :
    Stocked sha256 src d' where
  wheel := h.wheel.imp fun w hw => (hd (.wheel w) rfl).symm ▸ hw
  requirements := (hd .requirements rfl).symm ▸ h.requirements
  buildRequirements hg := (hd .buildRequirements rfl).symm ▸ h.buildRequirements hg
  deps project hp :=
    have hold : project ∈ wanted d := wanted_congr hd ▸ hp
    (h.deps project hold).mono fun _ => Checked.mono fun g => (hd (.dep g) rfl).symm

/-- `BUILD.json` changes nothing else. -/
theorem Filled.set_info (h : Filled sha256 src d) (text : Str) : Filled sha256 src (d.set .buildJson text) where
  toStocked := h.toStocked.congr fun f hf => by
    rw [Dict.get?_set, if_neg fun he => by simp [he, File.isLate] at hf]
  units us hus u hu := by
    rw [Dict.get?_set, if_neg (by simp)]
    exact h.units us hus u hu

end

/-! ### What holds at every moment -/

section
variable (sha256 : Str → Str)

/-- Whatever has a `BUILD.json` and is no staging directory is what a build
staged as a whole, and `CURRENT` names no staging directory. -/
structure Inv (s : Store) : Prop where
  published : ∀ name d, s.dirs.get? name = some d → isPartial name = false → d.get? .buildJson ≠ none →
    ∃ b ∈ s.staged, b.source.final = name ∧ b.files = d
  complete : ∀ b ∈ s.staged, Complete sha256 b
  pointed : ∀ text, s.current = some text → isPartial (trim text) = false

variable {sha256} {s s' : Store} {name : Str} {d : Dir}

@[simp] theorem put_dirs (name : Str) (d : Dir) : (s.put name d).dirs = s.dirs.set name d := rfl

@[simp] theorem put_staged (name : Str) (d : Dir) : (s.put name d).staged = s.staged := rfl

@[simp] theorem drop_dirs (name : Str) : (s.drop name).dirs = s.dirs.erase name := rfl

@[simp] theorem drop_staged (name : Str) : (s.drop name).staged = s.staged := rfl

/-- What is in a staging directory does not matter. -/
theorem Inv.put_partial (h : Inv sha256 s) (hp : isPartial name) (d : Dir) : Inv sha256 (s.put name d) where
  published other e hget hother hinfo := by
    rw [put_dirs, Dict.get?_set] at hget
    split at hget
    · rename_i heq
      rw [heq, hp] at hother
      exact absurd hother (by decide)
    · exact h.published other e hget hother hinfo
  complete := h.complete
  pointed := h.pointed

/-- A directory without a `BUILD.json` does not matter. -/
theorem Inv.put_bare (h : Inv sha256 s) (hd : d.get? .buildJson = none) : Inv sha256 (s.put name d) where
  published other e hget hother hinfo := by
    rw [put_dirs, Dict.get?_set] at hget
    split at hget
    · exact absurd (Option.some.inj hget ▸ hd) hinfo
    · exact h.published other e hget hother hinfo
  complete := h.complete
  pointed := h.pointed

theorem Inv.drop (h : Inv sha256 s) (name : Str) : Inv sha256 (s.drop name) where
  published other e hget hother hinfo := by
    rw [drop_dirs, Dict.get?_erase] at hget
    split at hget
    · exact absurd hget (by simp)
    · exact h.published other e hget hother hinfo
  complete := h.complete
  pointed := h.pointed

/-- A complete staging gets its name. -/
theorem Inv.publish (h : Inv sha256 s) {b : Staged} (hb : b ∈ s.staged) : Inv sha256 (s.put b.source.final b.files) where
  published other e hget hother hinfo := by
    rw [put_dirs, Dict.get?_set] at hget
    split at hget
    · rename_i heq
      exact ⟨b, hb, heq.symm, Option.some.inj hget⟩
    · exact h.published other e hget hother hinfo
  complete := h.complete
  pointed := h.pointed

theorem Inv.point (h : Inv sha256 s) {text : Str} (hp : isPartial (trim text) = false) :
    Inv sha256 { s with current := some text } where
  published := h.published
  complete := h.complete
  pointed _ hother := Option.some.inj hother ▸ hp

/-- One staging more. -/
theorem Inv.stage (h : Inv sha256 s) {b : Staged} (hb : Complete sha256 b) :
    Inv sha256 { s with staged := s.staged ++ [b] } where
  published name d hget hname hinfo := by
    obtain ⟨b', hb', hfinal, hfiles⟩ := h.published name d hget hname hinfo
    exact ⟨b', List.mem_append_left _ hb', hfinal, hfiles⟩
  complete other hother := by
    rcases List.mem_append.mp hother with hm | hm
    · exact h.complete other hm
    · exact List.mem_singleton.mp hm ▸ hb
  pointed := h.pointed

theorem inv_empty : Inv sha256 ⟨.empty, none, []⟩ where
  published name d h := by simp at h
  complete b hb := by simp at hb
  pointed text h := by simp at h

end

/-! ### What is found -/

/-- What a build's `BUILD.json` tells. -/
theorem infoOf_infoText (src : Source) (commit builtAt : Str) :
    infoOf (infoText src commit builtAt) = some (src.version, src.tree.text) := by
  have htrip : NumbersTrip (fun _ => []) noFloats (buildInfo src commit builtAt) := by
    simp [buildInfo, NumbersTrip, MembersTrip]
  have hread : loads noFloats (infoText src commit builtAt) = .ok (buildInfo src commit builtAt) := by
    rw [infoText, loads_append_space _ (by decide), loads_dumps htrip]
  unfold infoOf
  rw [hread]
  rfl

section
variable {sha256 : Str → Str} {s : Store} {path : Str} {a : Artifact}

theorem path_of_load (h : load s path = .ok (some a)) : a.path = path := by
  unfold load at h
  split at h
  · simp at h
  · split at h
    · simp only [Except.ok.injEq, Option.some.injEq] at h
      rw [← h]
    · simp at h

/-- What is loaded by a name that is no staging directory's is whole. -/
theorem Inv.finished (h : Inv sha256 s) (hp : isPartial path = false) (hload : load s path = .ok (some a)) :
    Finished sha256 s a := by
  unfold load at hload
  cases htext : s.text path .buildJson with
  | none => simp [htext] at hload
  | some text =>
    obtain ⟨d, hd, hinfo⟩ : ∃ d, s.dirs.get? path = some d ∧ d.get? .buildJson = some text :=
      Option.bind_eq_some_iff.mp htext
    obtain ⟨b, hb, hfinal, hfiles⟩ := h.published path d hd hp (by simp [hinfo])
    obtain ⟨commit, builtAt, hwritten⟩ := (h.complete b hb).info
    obtain rfl : infoText b.source commit builtAt = text :=
      Option.some.inj (hwritten.symm.trans (hfiles ▸ hinfo))
    have ha : (⟨b.source.version, b.source.tree.text, path⟩ : Artifact) = a := by
      simpa [htext, infoOf_infoText] using hload
    exact ⟨b, hb, h.complete b hb, by rw [hfinal, ha], by rw [← ha, hfiles, hd]⟩

theorem load_of_firstLoaded : ∀ {paths : List Str}, firstLoaded s paths = .ok (some a) →
    ∃ path ∈ paths, load s path = .ok (some a)
  | [], h => by simp [firstLoaded] at h
  | path :: paths, h => by
    unfold firstLoaded at h
    cases hload : load s path with
    | error e => simp [hload, bind, Except.bind] at h
    | ok o =>
      cases o with
      | some found =>
        simp only [hload, bind, Except.bind, Except.ok.injEq, Option.some.injEq] at h
        exact ⟨path, List.mem_cons_self, h ▸ hload⟩
      | none =>
        simp only [hload, bind, Except.bind] at h
        obtain ⟨path', hmem, hload'⟩ := load_of_firstLoaded h
        exact ⟨path', List.mem_cons_of_mem _ hmem, hload'⟩

theorem Inv.findArtifact (h : Inv sha256 s) {t : Tree} (hfind : findArtifact s t.text = .ok (some a)) :
    Finished sha256 s a := by
  obtain ⟨path, hmem, hload⟩ := load_of_firstLoaded hfind
  obtain ⟨-, hsuffix⟩ : path ∈ s.dirs.keys ∧ ('+' :: t.text).isSuffixOf path := by simpa [sortedStrs] using hmem
  have hends : EndsWith path t := List.isSuffixOf_iff_suffix.mp hsuffix
  exact h.finished hends.isPartial hload

theorem Inv.current (h : Inv sha256 s) (hcurrent : current s = .ok (some a)) : Finished sha256 s a := by
  unfold Component.current at hcurrent
  cases htext : s.current with
  | none => simp [htext] at hcurrent
  | some text =>
    by_cases hnil : trim text = []
    · simp [htext, hnil] at hcurrent
    · simp only [htext, if_neg hnil] at hcurrent
      exact h.finished (h.pointed text htext) hcurrent

/-- The artifacts among some directories, where all can be read. -/
theorem allLoaded_eq_ok {as : List Artifact} : ∀ {paths : List Str}, allLoaded s paths = .ok as →
    (∀ path ∈ paths, ∃ o, load s path = .ok o) ∧ ∀ a, a ∈ as ↔ ∃ path ∈ paths, load s path = .ok (some a) := by
  intro paths
  induction paths generalizing as with
  | nil =>
    intro h
    simp only [allLoaded, Except.ok.injEq] at h
    simp [← h]
  | cons path paths ih =>
    intro h
    unfold allLoaded at h
    cases hload : load s path with
    | error e => simp [hload, bind, Except.bind] at h
    | ok o =>
      cases hrest : allLoaded s paths with
      | error e => simp [hload, hrest, bind, Except.bind] at h
      | ok rest =>
        obtain ⟨hreads, hmem⟩ := ih hrest
        simp only [hload, hrest, bind, Except.bind, Except.ok.injEq] at h
        refine ⟨fun p hp => ?_, fun a => ?_⟩
        · rcases List.mem_cons.mp hp with rfl | hp
          · exact ⟨o, hload⟩
          · exact hreads p hp
        · rw [← h, List.mem_append, hmem a]
          simp [hload, Option.mem_toList, eq_comm]

end

/-! ### Operations -/

open Prog

/-- No other file of an artifact is removed while its `BUILD.json` is there. -/
def Careful : Env Store Cmd Ans
  | s, .unlink name f, ok, _ => ok = true → isPartial name = false → f ≠ .buildJson → s.text name .buildJson = none
  | _, _, _, _ => True

/-- What does no harm to an artifact, as far as its operands tell. -/
def Plain : Cmd → Prop
  | .mkdir name => isPartial name
  | .wheel name => isPartial name
  | .uvExport name _ => isPartial name
  | .fetch name _ _ => isPartial name
  | .copy name _ _ => isPartial name
  | .openInfo name => isPartial name
  | .writeInfo .. => False
  | .rename .. => False
  | .writeCurrent text => isPartial (trim text) = false
  | _ => True

section
variable {sha256 : Str → Str} {s s' : Store}

theorem Inv.spoiled (h : Inv sha256 s) {name : Str} (hp : isPartial name) (hs : Spoiled s name s') : Inv sha256 s' := by
  obtain ⟨d, rfl⟩ := hs
  exact h.put_partial hp d

theorem Inv.written (h : Inv sha256 s) {name : Str} (hp : isPartial name) {f : File} {text : Str}
    (hs : Written s name f text s') : Inv sha256 s' := by
  obtain ⟨d, -, rfl⟩ := hs
  exact h.put_partial hp _

theorem Inv.unlinked (h : Inv sha256 s) {name : Str} {f : File} {d : Dir} (hd : s.dirs.get? name = some d)
    (hc : isPartial name = false → f ≠ .buildJson → s.text name .buildJson = none) :
    Inv sha256 (s.put name (d.erase f)) := by
  by_cases hp : isPartial name = true
  · exact h.put_partial hp _
  · refine h.put_bare ?_
    rw [Dict.get?_erase]
    split
    · rfl
    · rename_i hf
      have hnone : s.text name .buildJson = none := hc (by simpa using hp) (Ne.symm hf)
      simpa [Store.text, hd] using hnone

/-- Every operation of this kind keeps what holds. -/
theorem inv_step {c : Cmd} (hc : Plain c) {a : Ans c} (h : Inv sha256 s) (hs : restrict answers Careful s c a s') :
    Inv sha256 s' := by
  obtain ⟨hs, hcareful⟩ := hs
  cases c with
  | check c => exact hs ▸ h
  | look => exact hs.2 ▸ h
  | scan name => exact hs.1 ▸ h
  | unlink name f =>
    cases a with
    | false => exact hs ▸ h
    | true =>
      obtain ⟨d, hd, rfl⟩ := hs
      exact h.unlinked hd (hcareful rfl)
  | rmdir name =>
    cases a with
    | false => exact hs ▸ h
    | true => exact hs.2 ▸ h.drop name
  | mkdir name =>
    cases a with
    | false => exact hs ▸ h
    | true => exact hs.2 ▸ h.put_partial hc .empty
  | wheel name =>
    cases a with
    | false => exact h.spoiled hc hs
    | true =>
      obtain ⟨d, d', -, -, rfl⟩ := hs
      exact h.put_partial hc d'
  | uvExport name f =>
    cases a with
    | false => exact h.spoiled hc hs
    | true => exact h.written hc hs.choose_spec
  | fetch name url f =>
    cases a with
    | false => exact h.spoiled hc hs
    | true => exact h.written hc hs.choose_spec
  | copy name f text =>
    cases a with
    | false => exact h.spoiled hc hs
    | true => exact h.written hc hs
  | head => exact hs ▸ h
  | now => exact hs ▸ h
  | openInfo name =>
    cases a with
    | false => exact hs ▸ h
    | true => exact h.written hc hs
  | writeInfo name src text => exact hc.elim
  | rename stage final => exact hc.elim
  | openCurrent =>
    cases a with
    | false => exact hs ▸ h
    | true => exact hs ▸ h.point (by decide)
  | writeCurrent text =>
    cases a with
    | false => exact hs ▸ h
    | true => exact hs ▸ h.point hc

end

section
variable (sha256 : Str → Str) {α : Type}

/-- However it is answered, the program keeps what holds, and returns with `Q`. -/
abbrev Sure (p : Play α) (Q : α → Store → Prop) (s : Store) : Prop :=
  p.wp (restrict answers Careful) (Inv sha256) Q (fun _ _ => True) s

/-- There is such a directory. -/
def Holds (name : Str) (P : Dir → Prop) (s : Store) : Prop := Inv sha256 s ∧ ∃ d, s.dirs.get? name = some d ∧ P d

variable {sha256} {s s' : Store} {name : Str} {P R : Dir → Prop}

theorem sure_must (p : Play Bool) (e : Failure) (Q : Unit → Store → Prop) :
    Sure sha256 (must p e) Q s ↔ Sure sha256 p (fun ok s' => ok = true → Q () s') s := by
  unfold Sure must
  rw [wp_bind]
  have hpost : (fun (ok : Bool) s' => (if ok then pure () else throw e : Play Unit).wp (restrict answers Careful)
      (Inv sha256) Q (fun _ _ => True) s') = fun ok s' => ok = true → Q () s' := by
    funext ok s'
    cases ok <;> simp
  rw [hpost]

theorem sure_ask {c : Cmd} (hc : Plain c) {Q : Ans c → Store → Prop} (h : Inv sha256 s)
    (hQ : ∀ a s', answers s c a s' → Inv sha256 s' → Q a s') : Sure sha256 (ask c) Q s := by
  intro a s' hs
  have hI : Inv sha256 s' := inv_step hc h hs
  exact ⟨hI, hQ a s' hs.1 hI⟩

theorem sure_look (h : Inv sha256 s) : Sure sha256 (ask Cmd.look) (fun a s' => a = s ∧ s' = s) s :=
  sure_ask (c := .look) trivial h fun _ _ hs _ => hs

theorem sure_check (c : Check) {P : Store → Prop} (h : Inv sha256 s) (hP : P s) :
    Sure sha256 (check c) (fun _ s' => Inv sha256 s' ∧ P s') s :=
  (sure_must _ _ _).mpr (sure_ask (c := .check c) trivial h fun _ _ hs hI _ => ⟨hI, hs ▸ hP⟩)

theorem Holds.mono (h : Holds sha256 name P s) (hPR : ∀ d, P d → R d) : Holds sha256 name R s :=
  ⟨h.1, h.2.imp fun _ hd => ⟨hd.1, hPR _ hd.2⟩⟩

/-- A file is written to the directory. -/
theorem Holds.written (h : Holds sha256 name P s) {f : File} {text : Str} (hs : Written s name f text s')
    (hI : Inv sha256 s') (hPR : ∀ d, P d → R (d.set f text)) : Holds sha256 name R s' := by
  obtain ⟨d, hd, rfl⟩ := hs
  obtain ⟨-, d', hd', hP⟩ := h
  obtain rfl : d = d' := Option.some.inj (hd.symm.trans hd')
  exact ⟨hI, d.set f text, by simp [Dict.get?_set], hPR d hP⟩

/-- A loop over `rest`, the rest of `xs`, that has made `P` of what is done. -/
theorem sure_each {f : α → Play Unit} {xs : List α} {J : List α → Store → Prop}
    (hf : ∀ done x rest s, xs = done ++ x :: rest → J done s → Sure sha256 (f x) (fun _ s' => J (done ++ [x]) s') s) :
    ∀ (rest done : List α) (s : Store), xs = done ++ rest → J done s → Sure sha256 (each f rest) (fun _ s' => J xs s') s
  | [], done, s, hxs, h => by
    have hdone : xs = done := by rw [hxs, List.append_nil]
    exact hdone ▸ h
  | x :: rest, done, s, hxs, h =>
    wp_then (hf done x rest s hxs h) fun _ s' h' => sure_each hf rest (done ++ [x]) s' (by simp [hxs]) h'

end

/-! ### Staging -/

section
variable {sha256 : Str → Str} {s : Store} {stage : Str} {lock : List Package}

def File.isDep : File → Bool
  | .dep _ => true
  | _ => false

/-- Between the two, dependencies were fetched, and none that was checked was lost. -/
structure Grown (sha256 : Str → Str) (lock : List Package) (d d' : Dir) : Prop where
  others : ∀ f, f.isDep = false → d'.get? f = d.get? f
  checked : ∀ g, Checked sha256 lock d g → Checked sha256 lock d' g

theorem Grown.refl (d : Dir) : Grown sha256 lock d d := ⟨fun _ _ => rfl, fun _ h => h⟩

theorem Grown.trans {d₁ d₂ d₃ : Dir} (h : Grown sha256 lock d₁ d₂) (h' : Grown sha256 lock d₂ d₃) :
    Grown sha256 lock d₁ d₃ :=
  ⟨fun f hf => (h'.others f hf).trans (h.others f hf), fun g hg => h'.checked g (h.checked g hg)⟩

theorem checked_set {art : LockFile} (hart : Locked lock art) (d : Dir) {text : Str}
    (hhash : isHash (sha256 text) art.hash) :
    Checked sha256 lock (d.set (.dep (filenameOf art)) text) (filenameOf art) :=
  ⟨art, text, hart, rfl, by simp [Dict.get?_set], hhash⟩

theorem grown_set {art : LockFile} (hart : Locked lock art) (d : Dir) {text : Str}
    (hhash : isHash (sha256 text) art.hash) : Grown sha256 lock d (d.set (.dep (filenameOf art)) text) where
  others f hf := by
    rw [Dict.get?_set, if_neg fun he => by simp [he, File.isDep] at hf]
  checked g hg := by
    by_cases hname : g = filenameOf art
    · exact hname ▸ checked_set hart d hhash
    · obtain ⟨art', text', hlocked, hname', hget, hhash'⟩ := hg
      exact ⟨art', text', hlocked, hname', by rwa [Dict.get?_set, if_neg (by simpa using hname)], hhash'⟩

/-- A dependency that is staged was checked. -/
theorem sure_stageDep (hp : isPartial stage) {art : LockFile} (hart : Locked lock art) {P : Dir → Prop}
    (h : Holds sha256 stage P s) :
    Sure sha256 (stageDep sha256 stage art) (fun _ s' => Holds sha256 stage
      (fun d' => ∃ d, P d ∧ Grown sha256 lock d d' ∧ Checked sha256 lock d' (filenameOf art)) s') s := by
  have hfetch : Sure sha256 (must (ask (Cmd.fetch stage art.url (.dep (filenameOf art)))) .os)
      (fun _ s' => Inv sha256 s' ∧ ∃ d text, P d ∧ s'.dirs.get? stage = some (d.set (.dep (filenameOf art)) text)) s := by
    refine (sure_must _ _ _).mpr (sure_ask (c := .fetch stage art.url (.dep (filenameOf art))) hp h.1 ?_)
    rintro ok s' hs hI rfl
    obtain ⟨text, d, hd, rfl⟩ : ∃ text, Written s stage (.dep (filenameOf art)) text s' := hs
    obtain ⟨-, d', hd', hP⟩ := h
    obtain rfl : d = d' := Option.some.inj (hd.symm.trans hd')
    exact ⟨hI, d, text, hP, by simp [Dict.get?_set]⟩
  refine wp_then hfetch fun _ s₁ h₁ => ?_
  obtain ⟨hI, d, text, hP, hget⟩ := h₁
  have htext : (s₁.text stage (.dep (filenameOf art))).getD [] = text := by
    rw [Store.text, hget, Option.bind_some, Dict.get?_set, if_pos rfl, Option.getD_some]
  refine wp_then (sure_look hI) fun a s₂ h₂ => ?_
  obtain ⟨rfl, rfl⟩ := h₂
  rw [htext]
  split
  · rename_i hhash
    exact ⟨hI, _, hget, d, hP, grown_set hart d hhash, checked_set hart d hhash⟩
  · refine wp_then (P := fun _ _ => True) ((sure_must _ _ _).mpr ?_) fun _ _ _ => trivial
    exact sure_ask (c := .unlink stage (.dep (filenameOf art))) trivial hI fun _ _ _ _ _ => trivial

theorem mem_of_packages {project : Str} {pkg : Package} (h : (packages lock).get? project = some pkg) : pkg ∈ lock := by
  obtain ⟨before, after, heq, -⟩ := (Dict.get?_ofList_eq_some _).mp h
  have hmem : (project, pkg) ∈ lock.map fun p => (normalize p.name, p) := by simp [heq]
  obtain ⟨p, hp, heq'⟩ := List.mem_map.mp hmem
  have hpkg : p = pkg := (Prod.ext_iff.mp heq').2
  exact hpkg ▸ hp

theorem installable_subset : ∀ {ws ws' : List LockFile}, installable ws = some ws' → ws' ⊆ ws
  | [], ws', h => by
    obtain rfl : [] = ws' := Option.some.inj h
    exact List.Subset.refl _
  | w :: ws, ws', h => by
    unfold installable at h
    split at h
    · rename_i ok rest _ hrest
      have hsub : rest ⊆ ws := installable_subset hrest
      rw [← Option.some.inj h]
      split
      · exact List.cons_subset_cons w hsub
      · exact List.subset_cons_of_subset w hsub
    · simp at h

theorem locked_of_candidates {pkg : Package} {arts : List LockFile} (hpkg : pkg ∈ lock)
    (harts : candidates pkg = some arts) {art : LockFile} (hart : art ∈ arts) : Locked lock art := by
  obtain ⟨ws, hws, rfl⟩ := Option.map_eq_some_iff.mp harts
  refine ⟨pkg, hpkg, ?_⟩
  rcases List.mem_append.mp hart with hm | hm
  · exact List.mem_append_left _ hm
  · exact List.mem_append_right _ (installable_subset hws hm)

/-- A project's files are staged, and those that were checked stay. -/
theorem sure_stageProject (hp : isPartial stage) (project : Str) {P : Dir → Prop} (h : Holds sha256 stage P s) :
    Sure sha256 (stageProject sha256 lock stage project) (fun _ s' => Holds sha256 stage
      (fun d' => ∃ d, P d ∧ Grown sha256 lock d d' ∧ Supplied sha256 lock d' project) s') s := by
  obtain ⟨hI, d, hd, hP⟩ := h
  unfold stageProject
  split
  · trivial
  · rename_i pkg hpkg
    split
    · trivial
    · trivial
    · rename_i arts hne harts
      have hlocked : ∀ x ∈ arts, Locked lock x := fun x hx => locked_of_candidates (mem_of_packages hpkg) harts hx
      have hloop : Sure sha256 (each (stageDep sha256 stage) arts) (fun _ s' => Holds sha256 stage
          (fun d' => Grown sha256 lock d d' ∧ ∀ x ∈ arts, Checked sha256 lock d' (filenameOf x)) s') s := by
        refine sure_each (J := fun done s' => Holds sha256 stage
          (fun d' => Grown sha256 lock d d' ∧ ∀ x ∈ done, Checked sha256 lock d' (filenameOf x)) s')
          ?_ arts [] s rfl ⟨hI, d, hd, .refl d, by simp⟩
        intro done x rest s' heq hs'
        have hx : Locked lock x := hlocked x (by simp [heq])
        refine wp_post (sure_stageDep hp hx hs') fun _ s'' h'' => h''.mono ?_
        rintro d' ⟨d₁, ⟨hgrown₁, hdone⟩, hgrown', hchecked⟩
        refine ⟨hgrown₁.trans hgrown', fun y hy => ?_⟩
        rcases List.mem_append.mp hy with hy | hy
        · exact hgrown'.checked _ (hdone y hy)
        · exact List.mem_singleton.mp hy ▸ hchecked
      refine wp_post hloop fun _ s' h' => h'.mono ?_
      rintro d' ⟨hgrown', hall⟩
      exact ⟨d, hP, hgrown', pkg, arts, hpkg, harts, hne, hall⟩

/-- All projects are staged. -/
theorem sure_stageDeps (hp : isPartial stage) (projects : List Str) {d : Dir} (h : Holds sha256 stage (· = d) s) :
    Sure sha256 (stageDeps sha256 lock projects stage) (fun _ s' => Holds sha256 stage
      (fun d' => Grown sha256 lock d d' ∧ ∀ project ∈ projects, Supplied sha256 lock d' project) s') s := by
  unfold stageDeps
  split
  · trivial
  · have hloop : Sure sha256 (each (stageProject sha256 lock stage) (sortedStrs projects)) (fun _ s' =>
        Holds sha256 stage (fun d' => Grown sha256 lock d d' ∧
          ∀ project ∈ sortedStrs projects, Supplied sha256 lock d' project) s') s := by
      refine sure_each (J := fun done s' => Holds sha256 stage
        (fun d' => Grown sha256 lock d d' ∧ ∀ project ∈ done, Supplied sha256 lock d' project) s')
        ?_ (sortedStrs projects) [] s rfl (h.mono fun d' hd' => ⟨hd' ▸ .refl d', by simp⟩)
      intro done project rest s' _ hs'
      refine wp_post (sure_stageProject hp project hs') fun _ s'' h'' => h''.mono ?_
      rintro d' ⟨d₁, ⟨hgrown₁, hdone⟩, hgrown', hsupplied⟩
      refine ⟨hgrown₁.trans hgrown', fun other hother => ?_⟩
      rcases List.mem_append.mp hother with hm | hm
      · exact (hdone other hm).mono hgrown'.checked
      · exact List.mem_singleton.mp hm ▸ hsupplied
    refine wp_post hloop fun _ s' h' => h'.mono ?_
    rintro d' ⟨hgrown, hall⟩
    exact ⟨hgrown, fun project hproject => hall project (by simpa [sortedStrs] using hproject)⟩

theorem issues_each {α : Type} {K : Cmd → Prop} {f : α → Play Unit} (hf : ∀ x, (f x).Issues K) :
    ∀ xs, (each f xs).Issues K
  | [] => trivial
  | x :: xs => issues_bind (hf x) fun _ => issues_each hf xs

/-- What `rmtree` does. -/
def Clears (name : Str) : Cmd → Prop
  | .scan n => n = name
  | .unlink n _ => n = name
  | .rmdir n => n = name
  | _ => False

theorem issues_rmtree (name : Str) : (rmtree name).Issues (Clears name) := by
  have hscan : Clears name (.scan name) := rfl
  have hunlink : ∀ f, Clears name (.unlink name f) := fun _ => rfl
  have hrmdir : Clears name (.rmdir name) := rfl
  refine issues_bind (issues_ask hscan) fun files => issues_bind (issues_each (fun f => ?_) files) fun _ =>
    issues_bind (issues_ask hrmdir) fun _ => trivial
  exact issues_bind (issues_ask (hunlink f)) fun _ => trivial

theorem Clears.plain {name : Str} {c : Cmd} (h : Clears name c) : Plain c := by
  cases c with
  | scan n => trivial
  | unlink n f => trivial
  | rmdir n => trivial
  | _ => exact h.elim

/-- Another directory stays as it is. -/
theorem beside_of_clears {name other : Str} {c : Cmd} {a : Ans c} {s s' : Store} (hc : Clears name c)
    (hs : answers s c a s') (hne : other ≠ name) : s'.dirs.get? other = s.dirs.get? other ∧ s'.staged = s.staged := by
  cases c with
  | scan n => exact ⟨by rw [hs.1], by rw [hs.1]⟩
  | unlink n f =>
    cases a with
    | false => exact ⟨by rw [hs], by rw [hs]⟩
    | true =>
      obtain ⟨d, -, rfl⟩ := hs
      exact ⟨by rw [put_dirs, Dict.get?_set, if_neg (hc ▸ hne)], rfl⟩
  | rmdir n =>
    cases a with
    | false => exact ⟨by rw [hs], by rw [hs]⟩
    | true =>
      obtain ⟨-, rfl⟩ := hs
      exact ⟨by rw [drop_dirs, Dict.get?_erase, if_neg (hc ▸ hne)], rfl⟩
  | _ => exact hc.elim

theorem sure_rmtree (name : Str) (h : Inv sha256 s) : Sure sha256 (rmtree name) (fun _ s' => Inv sha256 s') s :=
  wp_mono (fun _ _ h => h) (fun _ _ _ => trivial) _ _ (wp_of_issues
    (fun _ _ _ _ hc hs he => ⟨inv_step hc.plain hs he, inv_step hc.plain hs he⟩) (issues_rmtree name) s h)

/-- The units are copied, each under its own name. -/
theorem sure_units (src : Source) (h : Holds sha256 src.stage (Stocked sha256 src) s) :
    Sure sha256 (each (fun u : Str × Str => must (ask (Cmd.copy src.stage (.unit u.1) u.2)) .os)
      ((src.units.map Dict.items).getD [])) (fun _ s' => Holds sha256 src.stage (fun d' => Stocked sha256 src d' ∧
        ∀ u ∈ (src.units.map Dict.items).getD [], d'.get? (.unit u.1) = some u.2) s') s := by
  refine sure_each (J := fun (done : List (Str × Str)) s' => Holds sha256 src.stage
    (fun d' => Stocked sha256 src d' ∧ ∀ u ∈ done, d'.get? (.unit u.1) = some u.2) s')
    ?_ _ [] s rfl (h.mono fun d' hd' => ⟨hd', by simp⟩)
  intro done u rest s' heq hs'
  refine (sure_must _ _ _).mpr (sure_ask (c := .copy src.stage (.unit u.1) u.2) (isPartial_stage src) hs'.1 ?_)
  rintro ok s'' hs hI rfl
  refine hs'.written hs hI fun d' hd' => ⟨hd'.1.congr fun f hf => ?_, fun v hv => ?_⟩
  · rw [Dict.get?_set, if_neg fun he => by simp [he, File.isLate] at hf]
  · have hnodup : ((done ++ u :: rest).map Prod.fst).Nodup := by
      rw [← heq]
      cases src.units with
      | none => exact List.nodup_nil
      | some us => exact us.nodup
    rcases List.mem_append.mp hv with hv | hv
    · have hne : v.1 ≠ u.1 := by
        rw [List.map_append, List.nodup_append] at hnodup
        exact hnodup.2.2 v.1 (List.mem_map_of_mem hv) u.1 (by simp)
      rw [Dict.get?_set, if_neg (by simpa using hne)]
      exact hd'.2 v hv
    · rw [List.mem_singleton.mp hv, Dict.get?_set, if_pos rfl]

theorem sure_wheel (hp : isPartial stage) (h : Inv sha256 s) : Sure sha256 (must (ask (Cmd.wheel stage)) .component)
    (fun _ s' => Holds sha256 stage (fun d => ∃ w, d.get? (.wheel w) ≠ none) s') s := by
  refine (sure_must _ _ _).mpr (sure_ask (c := .wheel stage) hp h ?_)
  rintro ok s' hs hI rfl
  obtain ⟨d, d', -, hw, rfl⟩ := hs
  exact ⟨hI, d', by simp [Dict.get?_set], hw⟩

theorem sure_export (hp : isPartial stage) {P R : Dir → Prop} (h : Holds sha256 stage P s) {f : File}
    (hPR : ∀ d text, P d → R (d.set f text)) :
    Sure sha256 (must (ask (Cmd.uvExport stage f)) .component) (fun _ s' => Holds sha256 stage R s') s := by
  refine (sure_must _ _ _).mpr (sure_ask (c := .uvExport stage f) hp h.1 ?_)
  rintro ok s' hs hI rfl
  obtain ⟨text, hs⟩ := hs
  exact h.written hs hI fun d => hPR d text

/-- What the requirements of `d` name was fetched to it. -/
theorem Exported.stocked {src : Source} {d d' : Dir} (h : Exported src d) (hgrown : Grown sha256 src.lock d d')
    (hall : ∀ project ∈ wanted d, Supplied sha256 src.lock d' project) : Stocked sha256 src d' := by
  have hwanted : wanted d' = wanted d := by
    unfold wanted
    rw [hgrown.others .requirements rfl, hgrown.others .buildRequirements rfl]
  exact {
    wheel := h.wheel.imp fun w hw => (hgrown.others (.wheel w) rfl).symm ▸ hw
    requirements := (hgrown.others .requirements rfl).symm ▸ h.requirements
    buildRequirements := fun hg => (hgrown.others .buildRequirements rfl).symm ▸ h.buildRequirements hg
    deps := hwanted.symm ▸ hall }

/-- Everything is staged, but for `BUILD.json`. -/
theorem sure_stageFiles (src : Source) (h : Inv sha256 s) :
    Sure sha256 (stageFiles sha256 src) (fun _ s' => Holds sha256 src.stage (Filled sha256 src) s') s := by
  have hp : isPartial src.stage := isPartial_stage src
  unfold stageFiles
  refine wp_then (sure_rmtree src.stage h) fun _ s₁ h₁ => ?_
  refine wp_then (P := fun _ s' => Inv sha256 s') ((sure_must _ _ _).mpr
    (sure_ask (c := .mkdir src.stage) hp h₁ fun _ _ _ hI _ => hI)) fun _ s₂ h₂ => ?_
  refine wp_then (sure_wheel hp h₂) fun _ s₃ h₃ => ?_
  have hrequirements : Sure sha256 (must (ask (Cmd.uvExport src.stage .requirements)) .component)
      (fun _ s' => Holds sha256 src.stage
        (fun d => (∃ w, d.get? (.wheel w) ≠ none) ∧ d.get? .requirements ≠ none) s') s₃ :=
    sure_export hp h₃ fun d text hd => ⟨by simpa [Dict.get?_set] using hd, by simp [Dict.get?_set]⟩
  refine wp_then hrequirements fun _ s₄ h₄ => ?_
  have hbuild : Sure sha256 (exportBuildRequirements src)
      (fun _ s' => Holds sha256 src.stage (Exported src) s') s₄ := by
    unfold exportBuildRequirements
    by_cases hg : src.buildGroup
    · rw [if_pos hg]
      refine sure_export hp h₄ fun d text hd => ⟨?_, ?_, fun _ => by simp [Dict.get?_set]⟩
      · simpa [Dict.get?_set] using hd.1
      · simpa [Dict.get?_set] using hd.2
    · rw [if_neg hg]
      exact h₄.mono fun d hd => ⟨hd.1, hd.2, fun h => absurd h hg⟩
  refine wp_then hbuild fun _ s₅ h₅ => ?_
  refine wp_then (sure_look h₅.1) fun a s₆ h₆ => ?_
  obtain ⟨rfl, rfl⟩ := h₆
  obtain ⟨hI, d, hd, hexported⟩ := h₅
  rw [hd, Option.map_some, Option.getD_some]
  have hstocked : Sure sha256 (stageDeps sha256 src.lock (wanted d) src.stage)
      (fun _ s' => Holds sha256 src.stage (Stocked sha256 src) s') s₆ := by
    refine wp_post (sure_stageDeps hp (wanted d) (d := d) ⟨hI, d, hd, rfl⟩) fun _ s' h' => h'.mono ?_
    rintro d' ⟨hgrown, hall⟩
    exact hexported.stocked hgrown hall
  refine wp_then hstocked fun _ s₇ h₇ => ?_
  refine wp_post (sure_units src h₇) fun _ s' h' => h'.mono fun d' hd' => ⟨hd'.1, fun us hus u hu => ?_⟩
  exact hd'.2 u (by simpa [hus] using hu)

end

/-! ### Publishing -/

section
variable {sha256 : Str → Str} {s : Store}

/-- `BUILD.json` is written last, and what was staged gets its name as a whole. -/
theorem sure_publish (src : Source) (h : Holds sha256 src.stage (Filled sha256 src) s) :
    Sure sha256 (publish src) (fun _ s' => Inv sha256 s' ∧
      Finished sha256 s' ⟨src.version, src.tree.text, src.final⟩) s := by
  have hp : isPartial src.stage := isPartial_stage src
  have hne : src.stage ≠ src.final := fun he => by
    rw [he, (endsWith_final src).isPartial] at hp
    exact absurd hp (by decide)
  unfold publish
  have hhead : Sure sha256 (ask Cmd.head) (fun _ s' => Holds sha256 src.stage (Filled sha256 src) s') s :=
    sure_ask (c := .head) trivial h.1 fun _ _ hs _ => hs ▸ h
  refine wp_then hhead fun head s₁ h₁ => ?_
  have hnow : Sure sha256 (ask Cmd.now) (fun _ s' => Holds sha256 src.stage (Filled sha256 src) s') s₁ :=
    sure_ask (c := .now) trivial h₁.1 fun _ _ hs _ => hs ▸ h₁
  refine wp_then hnow fun now s₂ h₂ => ?_
  have hopen : Sure sha256 (must (ask (Cmd.openInfo src.stage)) .os)
      (fun _ s' => Holds sha256 src.stage (Filled sha256 src) s') s₂ := by
    refine (sure_must _ _ _).mpr (sure_ask (c := .openInfo src.stage) hp h₂.1 ?_)
    rintro ok s' hs hI rfl
    exact h₂.written hs hI fun d hd => hd.set_info []
  refine wp_then hopen fun _ s₃ h₃ => ?_
  have hwrite : Sure sha256 (must (ask (Cmd.writeInfo src.stage src (infoText src head now))) .os)
      (fun _ s' => Inv sha256 s' ∧ ∃ d, s'.dirs.get? src.stage = some d ∧ ⟨src, d⟩ ∈ s'.staged) s₃ := by
    refine (sure_must _ _ _).mpr fun ok s' hs => ?_
    obtain ⟨hI, d, hd, hfilled⟩ := h₃
    cases ok with
    | false => exact ⟨hI.spoiled hp hs.1, fun hok => absurd hok (by decide)⟩
    | true =>
      obtain ⟨⟨d', hd', rfl⟩, -⟩ := hs
      obtain rfl : d = d' := Option.some.inj (hd.symm.trans hd')
      have hcomplete : Complete sha256 ⟨src, d.set .buildJson (infoText src head now)⟩ :=
        ⟨hfilled.set_info _, head, now, by rw [Dict.get?_set, if_pos rfl]⟩
      have hI' := (hI.put_partial hp (d.set .buildJson (infoText src head now))).stage hcomplete
      exact ⟨hI', fun _ => ⟨hI', d.set .buildJson (infoText src head now), by simp [Dict.get?_set], by simp⟩⟩
  refine wp_then hwrite fun _ s₄ h₄ => ?_
  obtain ⟨hI, d, hd, hstaged⟩ := h₄
  have hclear : Sure sha256 (rmtree src.final)
      (fun _ s' => Inv sha256 s' ∧ s'.dirs.get? src.stage = some d ∧ ⟨src, d⟩ ∈ s'.staged) s₄ := by
    refine wp_mono (fun _ _ h => h) (fun _ _ _ => trivial) _ _ (wp_of_issues
      (P := fun s' => Inv sha256 s' ∧ s'.dirs.get? src.stage = some d ∧ ⟨src, d⟩ ∈ s'.staged)
      (fun t c a t' hc ht he => ?_) (issues_rmtree src.final) s₄ ⟨hI, hd, hstaged⟩)
    obtain ⟨hIt, hdt, hbt⟩ := ht
    have hI' : Inv sha256 t' := inv_step hc.plain hIt he
    have hbeside : t'.dirs.get? src.stage = t.dirs.get? src.stage ∧ t'.staged = t.staged := beside_of_clears hc he.1 hne
    exact ⟨hI', hI', hbeside.1.trans hdt, hbeside.2 ▸ hbt⟩
  refine wp_then hclear fun _ s₅ h₅ => ?_
  obtain ⟨hI, hd, hstaged⟩ := h₅
  refine (sure_must _ _ _).mpr fun ok s' hs => ?_
  cases ok with
  | false =>
    obtain rfl : s' = s₅ := hs.1
    exact ⟨hI, fun hok => absurd hok (by decide)⟩
  | true =>
    obtain ⟨⟨d', hd', -, rfl⟩, -⟩ := hs
    obtain rfl : d = d' := Option.some.inj (hd.symm.trans hd')
    have hI' : Inv sha256 ((s₅.drop src.stage).put src.final d) := (hI.drop src.stage).publish (b := ⟨src, d⟩) hstaged
    exact ⟨hI', fun _ => ⟨hI', ⟨src, d⟩, hstaged, hI.complete _ hstaged, rfl, by simp [Dict.get?_set]⟩⟩

/-- `CURRENT` is set to an artifact. -/
theorem sure_setCurrent {a : Artifact} (h : Inv sha256 s) (ha : Finished sha256 s a) :
    Sure sha256 (setCurrent a.path) (fun _ s' => Inv sha256 s' ∧ Finished sha256 s' a) s := by
  have hplain : Plain (.writeCurrent (a.path ++ ['\n'])) := by
    obtain ⟨b, -, -, ha, -⟩ := ha
    rw [ha]
    exact isPartial_trim (endsWith_final b.source)
  unfold setCurrent
  have hopen : Sure sha256 (must (ask Cmd.openCurrent) .os) (fun _ s' => Inv sha256 s' ∧ Finished sha256 s' a) s := by
    refine (sure_must _ _ _).mpr (sure_ask (c := .openCurrent) trivial h ?_)
    rintro ok s' hs hI rfl
    have hs' : s' = { s with current := some [] } := hs
    exact ⟨hI, hs' ▸ ha⟩
  refine wp_then hopen fun _ s₁ h₁ => (sure_must _ _ _).mpr
    (sure_ask (c := .writeCurrent (a.path ++ ['\n'])) hplain h₁.1 ?_)
  rintro ok s' hs hI rfl
  have hs' : s' = { s₁ with current := some (a.path ++ ['\n']) } := hs
  exact ⟨hI, hs' ▸ h₁.2⟩

theorem sure_build (src : Source) (h : Inv sha256 s) :
    Sure sha256 (build sha256 src) (fun a s' => Inv sha256 s' ∧ Finished sha256 s' a) s := by
  have hchecks : Sure sha256 preconditions (fun _ s' => Inv sha256 s') s :=
    sure_each (J := fun _ s' => Inv sha256 s') (fun _ c _ _ _ hs =>
      wp_post (sure_check c (P := fun _ => True) hs trivial) fun _ _ h => h.1) _ [] s rfl h
  unfold build
  refine wp_then hchecks fun _ s₁ h₁ => wp_then (sure_stageFiles src h₁) fun _ s₂ h₂ =>
    wp_then (sure_publish src h₂) fun _ s₃ h₃ => ?_
  exact wp_then (sure_setCurrent h₃.1 h₃.2) fun _ s₄ h₄ => h₄

theorem sure_ensureBuilt (src : Source) (h : Inv sha256 s) :
    Sure sha256 (ensureBuilt sha256 src) (fun a s' => Inv sha256 s' ∧ Finished sha256 s' a) s := by
  unfold ensureBuilt
  refine wp_then (sure_check .clean (P := fun _ => True) h trivial) fun _ s₁ h₁ =>
    wp_then (sure_check .treeHash (P := fun _ => True) h₁.1 trivial) fun _ s₂ h₂ => ?_
  refine wp_then (sure_look h₂.1) fun a s₃ h₃ => ?_
  obtain ⟨rfl, rfl⟩ := h₃
  cases hfind : findArtifact s₃ src.tree.text with
  | error e => trivial
  | ok found =>
    cases found with
    | none => exact sure_build src h₂.1
    | some found =>
      show Sure sha256 (do setCurrent found.path; pure found) _ s₃
      exact wp_then (sure_setCurrent h₂.1 (h₂.1.findArtifact hfind)) fun _ s₄ h₄ => h₄

/-- The directory is an artifact, as `resolve_artifact` sees it. -/
def Stages (s : Store) (a : Artifact) : Prop := a.path ∈ s.dirs.keys ∧ '+' ∈ a.path ∧ load s a.path = .ok (some a)

/-- A staging directory with a `BUILD.json` is not the only one that the call
names, unless there is a `BUILD.json` that cannot be read. -/
def Call.Clear (s : Store) : Call → Prop
  | .resolveArtifact _ (some wanted) => (∀ path ∈ s.dirs.keys, '+' ∈ path → ∃ o, load s path = .ok o) →
    ∀ a, Stages s a → isPartial a.path → wanted ∈ [a.path, a.version] →
      ∃ b, Stages s b ∧ b ≠ a ∧ wanted ∈ [b.path, b.version]
  | _ => True

theorem isPartial_of_matching {src : Source} {wanted : Str} {a : Artifact}
    (hclear : Call.Clear s (.resolveArtifact src (some wanted))) (hmatch : matching s wanted = .ok [a]) :
    isPartial a.path = false ∧ load s a.path = .ok (some a) := by
  unfold matching at hmatch
  cases hall : allLoaded s (sortedStrs (s.dirs.keys.filter fun path => '+' ∈ path)) with
  | error e => simp [hall, Except.map] at hmatch
  | ok as =>
    obtain ⟨hreads, hmem⟩ := allLoaded_eq_ok hall
    have hfilter : as.filter (fun a => wanted ∈ [a.path, a.version]) = [a] := by
      simpa [hall, Except.map] using hmatch
    have hsees : ∀ x, x ∈ as ↔ Stages s x := by
      intro x
      rw [hmem x]
      constructor
      · rintro ⟨path, hpath, hload⟩
        obtain rfl : x.path = path := path_of_load hload
        obtain ⟨hkeys, hplus⟩ : x.path ∈ s.dirs.keys ∧ '+' ∈ x.path := by simpa [sortedStrs] using hpath
        exact ⟨hkeys, hplus, hload⟩
      · rintro ⟨hkeys, hplus, hload⟩
        exact ⟨x.path, by simpa [sortedStrs] using ⟨hkeys, hplus⟩, hload⟩
    have hnamed : ∀ x, x = a ↔ Stages s x ∧ wanted ∈ [x.path, x.version] := by
      intro x
      rw [← List.mem_singleton, ← hfilter, List.mem_filter, hsees x, decide_eq_true_eq]
    obtain ⟨hstages, hwanted⟩ := (hnamed a).mp rfl
    refine ⟨?_, hstages.2.2⟩
    by_contra hp
    obtain ⟨b, hb, hne, hbwanted⟩ := hclear
      (fun path hpath hplus => hreads path (by simpa [sortedStrs] using ⟨hpath, hplus⟩)) a hstages (by simpa using hp) hwanted
    exact hne ((hnamed b).mpr ⟨hb, hbwanted⟩)

/-- **What a call returns is whole**, and whatever it comes to, what holds is kept. -/
theorem sure_run (c : Call) (h : Inv sha256 s) (hclear : c.Clear s) :
    Sure sha256 (c.run sha256) (fun a s' => Inv sha256 s' ∧ Finished sha256 s' a) s := by
  cases c with
  | build src => exact sure_build src h
  | ensureBuilt src => exact sure_ensureBuilt src h
  | resolveArtifact src wanted =>
    cases wanted with
    | none => exact sure_ensureBuilt src h
    | some wanted =>
      have hknown : Sure sha256 (check .known) (fun _ s' => Inv sha256 s' ∧ s' = s) s := sure_check .known h rfl
      refine wp_then hknown fun _ s₁ h₁ => ?_
      obtain ⟨-, rfl⟩ := h₁
      refine wp_then (sure_look h) fun a s₂ h₂ => ?_
      obtain ⟨rfl, rfl⟩ := h₂
      cases hmatch : matching s₂ wanted with
      | error e => trivial
      | ok found =>
        match found with
        | [] => trivial
        | [a] =>
          obtain ⟨hp, hload⟩ := isPartial_of_matching hclear hmatch
          exact ⟨h, h.finished hp hload⟩
        | _ :: _ :: _ => trivial

end

/-! ### Runs -/

section
variable (sha256 : Str → Str) (env : Env Store Cmd Ans) (clear : Store → Call → Prop)

/-- What calls come to, one after the other, each cut off anywhere, where the
operations answer as `env` and every call starts as `clear` says. -/
inductive Reached : Store → Prop
  | start : Reached ⟨.empty, none, []⟩
  | call {s s' : Store} {c : Call} {p : Play Artifact} :
    Reached s → clear s c → Reach env (c.run sha256, s) (p, s') → Reached s'

/-- Only whole artifacts are found, and whatever a call returns is one. -/
structure Sound (s : Store) : Prop where
  found : ∀ (t : Tree) a, findArtifact s t.text = .ok (some a) → Finished sha256 s a
  current : ∀ a, Component.current s = .ok (some a) → Finished sha256 s a
  returned : ∀ c a s', clear s c → Reach env (c.run sha256, s) (.ret a, s') → Finished sha256 s' a

variable {sha256}

theorem inv_of_reached {s : Store} (h : Reached sha256 (restrict answers Careful) (fun s c => c.Clear s) s) :
    Inv sha256 s := by
  induction h with
  | start => exact inv_empty
  | call _ hclear hreach ih => exact (wp_reach hreach ih (sure_run _ ih hclear)).1

/-- **Only whole artifacts are installed**, in every run that removes no other
file of an artifact before its `BUILD.json` and is never asked for the staging
directory of a build that was cut off. -/
theorem sound_of_reached {s : Store} (h : Reached sha256 (restrict answers Careful) (fun s c => c.Clear s) s) :
    Sound sha256 (restrict answers Careful) (fun s c => c.Clear s) s where
  found _ _ := (inv_of_reached h).findArtifact
  current _ := (inv_of_reached h).current
  returned _ _ _ hclear hreach := ((wp_reach hreach (inv_of_reached h) (sure_run _ (inv_of_reached h) hclear)).2).2

end

/-- The files of a directory are changed; `failed` is left where there is none. -/
def within (s : Store) (name : Str) (g : Dir → Dir) (failed : Store) : Bool × Store :=
  match s.dirs.get? name with
  | none => (false, failed)
  | some d => (true, s.put name (g d))

/-- What works if `p`. -/
def provided (p : Bool) (s : Store) (done : Bool × Store) : Bool × Store := if p then done else (false, s)

/-- May the file be removed from an artifact? -/
def mayUnlink (careless : Bool) (s : Store) (name : Str) (f : File) : Bool :=
  careless ∨ isPartial name ∨ f = .buildJson ∨ s.text name .buildJson = none

def writeAll (s : Store) (name : Str) (src : Source) (text : Str) : Bool × Store :=
  match s.dirs.get? name with
  | none => (false, s.put name .empty)
  | some d => (true, { s.put name (d.set .buildJson text) with staged := s.staged ++ [⟨src, d.set .buildJson text⟩] })

def moved (s : Store) (stage final : Str) : Bool × Store :=
  match s.dirs.get? stage, s.dirs.get? final with
  | some d, none => (true, (s.drop stage).put final d)
  | _, _ => (false, s)

/-- Operations that work. A file is removed before its `BUILD.json` only if `careless`. -/
def obliging (careless : Bool) : (s : Store) → (c : Cmd) → Ans c × Store
  | s, .check _ => (true, s)
  | s, .look => (s, s)
  | s, .scan name => (((s.dirs.get? name).map Dict.keys).getD [], s)
  | s, .unlink name f => provided (mayUnlink careless s name f) s (within s name (·.erase f) s)
  | s, .rmdir name => provided (s.dirs.get? name = some .empty) s (true, s.drop name)
  | s, .mkdir name => provided (s.dirs.get? name = none) s (true, s.put name .empty)
  | s, .wheel name => within s name (·.set (.wheel "exporter-0.1.0-py3-none-any.whl".toList) []) (s.put name .empty)
  | s, .uvExport name f => within s name (·.set f "six==1.0\n".toList) (s.put name .empty)
  | s, .fetch name _ f => within s name (·.set f []) (s.put name .empty)
  | s, .copy name f text => within s name (·.set f text) (s.put name .empty)
  | s, .head => ("3f2a".toList, s)
  | s, .now => ("2026-01-02T03:04:05+00:00".toList, s)
  | s, .openInfo name => within s name (·.set .buildJson []) s
  | s, .writeInfo name src text => writeAll s name src text
  | s, .rename stage final => moved s stage final
  | s, .openCurrent => (true, { s with current := some [] })
  | s, .writeCurrent text => (true, { s with current := some text })

/-- A component with a dependency, whose file is empty, and a unit. -/
def exporter : Source where
  name := "exporter".toList
  version := "0.1.0".toList
  tree := ⟨"9f3c".toList, by decide, by decide⟩
  lock := [⟨"Six".toList, some ⟨"https://files/six-1.0.tar.gz".toList,
    "sha256:e3b0c44298fc1c149afbf4c8996fb92427ae41e4649b934ca495991b7852b855".toList⟩, []⟩]
  buildGroup := false
  units := some (Dict.ofList [("exporter.service".toList, "[Unit]".toList)])
  pin := "cpython-3.14.0".toList

/-- The hash of the empty text. -/
def hashOfEmpty (_ : Str) : Str := "e3b0c44298fc1c149afbf4c8996fb92427ae41e4649b934ca495991b7852b855".toList

section
variable (s : Store) (name : Str)

theorem within_eq (g : Dir → Dir) (failed : Store) : within s name g failed = (false, failed) ∨
    ∃ d, s.dirs.get? name = some d ∧ within s name g failed = (true, s.put name (g d)) := by
  unfold within
  cases h : s.dirs.get? name with
  | none => exact .inl rfl
  | some d => exact .inr ⟨d, rfl, rfl⟩

theorem written_within (f : File) (text : Str) {r : Bool × Store}
    (hr : r = within s name (·.set f text) (s.put name .empty)) :
    if r.1 = true then Written s name f text r.2 else Spoiled s name r.2 := by
  rcases within_eq s name (·.set f text) (s.put name .empty) with h | ⟨d, hd, h⟩
  · rw [hr, h]
    exact ⟨_, rfl⟩
  · rw [hr, h]
    exact ⟨d, hd, rfl⟩

theorem exists_written {f : File} {text : Str} {r : Bool × Store}
    (h : if r.1 = true then Written s name f text r.2 else Spoiled s name r.2) :
    if r.1 = true then ∃ text, Written s name f text r.2 else Spoiled s name r.2 := by
  split
  · rename_i hr
    exact ⟨text, by simpa [hr] using h⟩
  · rename_i hr
    simpa [hr] using h

theorem answers_unlink (p : Bool) (f : File) {r : Bool × Store} (hr : r = provided p s (within s name (·.erase f) s)) :
    if r.1 = true then ∃ d, s.dirs.get? name = some d ∧ r.2 = s.put name (d.erase f) else r.2 = s := by
  cases p with
  | false =>
    rw [hr]
    rfl
  | true =>
    rcases within_eq s name (·.erase f) s with h | ⟨d, hd, h⟩
    · rw [hr, provided, if_pos rfl, h]
      rfl
    · rw [hr, provided, if_pos rfl, h]
      exact ⟨d, hd, rfl⟩

theorem answers_provided {p : Bool} (A : Store → Prop) (done : Store) (hA : p = true → A done) {r : Bool × Store}
    (hr : r = provided p s (true, done)) : if r.1 = true then A r.2 else r.2 = s := by
  cases p with
  | false =>
    rw [hr]
    rfl
  | true =>
    rw [hr]
    exact hA rfl

theorem answers_openInfo {r : Bool × Store} (hr : r = within s name (·.set .buildJson []) s) :
    if r.1 = true then Written s name .buildJson [] r.2 else r.2 = s := by
  rcases within_eq s name (·.set .buildJson []) s with h | ⟨d, hd, h⟩
  · rw [hr, h]
    rfl
  · rw [hr, h]
    exact ⟨d, hd, rfl⟩

theorem answers_wheel (w text : Str) {r : Bool × Store}
    (hr : r = within s name (·.set (.wheel w) text) (s.put name .empty)) :
    if r.1 = true then ∃ d d', s.dirs.get? name = some d ∧ (∃ w, d'.get? (.wheel w) ≠ none) ∧ r.2 = s.put name d'
    else Spoiled s name r.2 := by
  rcases within_eq s name (·.set (.wheel w) text) (s.put name .empty) with h | ⟨d, hd, h⟩
  · rw [hr, h]
    exact ⟨_, rfl⟩
  · rw [hr, h]
    exact ⟨d, d.set (.wheel w) text, hd, ⟨w, by simp [Dict.get?_set]⟩, rfl⟩

theorem answers_writeAll (src : Source) (text : Str) {r : Bool × Store} (hr : r = writeAll s name src text) :
    if r.1 = true then ∃ d, s.dirs.get? name = some d ∧
      r.2 = { s.put name (d.set .buildJson text) with staged := s.staged ++ [⟨src, d.set .buildJson text⟩] }
    else Spoiled s name r.2 := by
  rw [hr, writeAll]
  cases h : s.dirs.get? name with
  | none => exact ⟨_, rfl⟩
  | some d => exact ⟨d, rfl, rfl⟩

theorem answers_moved (stage final : Str) {r : Bool × Store} (hr : r = moved s stage final) :
    if r.1 = true then ∃ d, s.dirs.get? stage = some d ∧ (∀ e, s.dirs.get? final = some e → e.items = []) ∧
      r.2 = (s.drop stage).put final d
    else r.2 = s := by
  rw [hr, moved]
  cases h : s.dirs.get? stage with
  | none => rfl
  | some d =>
    cases h' : s.dirs.get? final with
    | none => exact ⟨d, rfl, fun e he => absurd he (by simp), rfl⟩
    | some e => rfl

theorem answers_obliging (careless : Bool) (c : Cmd) :
    answers s c (obliging careless s c).1 (obliging careless s c).2 := by
  cases c with
  | look => exact ⟨rfl, rfl⟩
  | scan name =>
    refine ⟨rfl, ?_⟩
    show ((s.dirs.get? name).map Dict.keys).getD [] = [] ∨ ∃ d, _ ∧ (((s.dirs.get? name).map Dict.keys).getD []).Perm _
    cases h : s.dirs.get? name with
    | none => exact .inl rfl
    | some d => exact .inr ⟨d, rfl, .refl _⟩
  | unlink name f => exact answers_unlink s name _ f rfl
  | rmdir name =>
    exact answers_provided s (fun s' => (∃ d, s.dirs.get? name = some d ∧ d.items = []) ∧ s' = s.drop name) _
      (fun h => ⟨⟨.empty, by simpa using h, rfl⟩, rfl⟩) rfl
  | mkdir name =>
    exact answers_provided s (fun s' => s.dirs.get? name = none ∧ s' = s.put name .empty) _
      (fun h => ⟨by simpa using h, rfl⟩) rfl
  | wheel name => exact answers_wheel s name _ _ rfl
  | uvExport name f => exact exists_written s name (written_within s name f _ rfl)
  | fetch name url f => exact exists_written s name (written_within s name f _ rfl)
  | copy name f text => exact written_within s name f text rfl
  | openInfo name => exact answers_openInfo s name rfl
  | writeInfo name src text => exact answers_writeAll s name src text rfl
  | rename stage final => exact answers_moved s stage final rfl
  | _ => rfl

end

theorem careful_obliging (s : Store) (c : Cmd) :
    restrict answers Careful s c (obliging false s c).1 (obliging false s c).2 := by
  refine ⟨answers_obliging s false c, ?_⟩
  cases c with
  | unlink name f =>
    intro hok hp hf
    have hmay : mayUnlink false s name f = true := by
      by_contra hno
      have hfalse : (provided (mayUnlink false s name f) s (within s name (·.erase f) s)).1 = true := hok
      simp [provided, hno] at hfalse
    simpa [mayUnlink, hp, hf] using hmay
  | _ => trivial

/-- What a first build leaves. -/
def built : Store := (Prog.execFor (obliging false) 40 (build hashOfEmpty exporter) ⟨.empty, none, []⟩).2

theorem exporter_found : ∃ a, findArtifact built exporter.tree.text = .ok (some a) ∧ Finished hashOfEmpty built a :=
  have hreached : Reached hashOfEmpty (restrict answers Careful) (fun s c => c.Clear s) built :=
    .call (c := .build exporter) .start trivial (reach_execFor careful_obliging 40 _ _)
  have hfind : findArtifact built exporter.tree.text = .ok (some ⟨exporter.version, exporter.tree.text, exporter.final⟩) := by
    decide +kernel
  ⟨_, hfind, (sound_of_reached hreached).found exporter.tree _ hfind⟩

/-- What a second build leaves that is killed in `rmtree`, after the wheel. -/
def torn : Store := (Prog.execFor (obliging true) 24 (build hashOfEmpty exporter) built).2

theorem rebuild_tears : ¬ ∀ s, Reached hashOfEmpty answers (fun _ _ => True) s →
    Sound hashOfEmpty answers (fun _ _ => True) s := by
  intro h
  have hbuilt : Reached hashOfEmpty answers (fun _ _ => True) built :=
    .call (c := .build exporter) .start trivial (reach_execFor (fun s c => answers_obliging s false c) 40 _ _)
  have htorn : Reached hashOfEmpty answers (fun _ _ => True) torn :=
    .call (c := .build exporter) hbuilt trivial (reach_execFor (fun s c => answers_obliging s true c) 24 _ _)
  have hfind : findArtifact torn exporter.tree.text = .ok (some ⟨exporter.version, exporter.tree.text, exporter.final⟩) := by
    decide +kernel
  have hnone : ∀ b ∈ torn.staged, torn.dirs.get? exporter.final ≠ some b.files := by decide +kernel
  obtain ⟨b, hb, -, -, hfiles⟩ := (h torn htorn).found exporter.tree _ hfind
  exact hnone b hb hfiles

end Component
end Lab
end MqResiliency
