/-
# The directory of the tarballs

What the cache holds (`World`), what the calls of the two programs come to
(`Disk`), and its texts: no tarball's name goes on to be another's
(`IsTarball.eq_of_prefix`), so a line of a sidecar that was torn in writing
names no other tarball (`line_of_prefix`).
-/
import MqResiliency.Lab.MqCache
import MqResiliency.Lib.Trace

namespace MqResiliency
namespace MqCache

open Py Lab Prog

variable {β : Type}

/-- The tarballs, the downloads beside them, and the sidecars. -/
structure World (β : Type) : Type where
  tar : Str → Option β
  part : Str → Option β
  sidecar : Str → Option Str

/-- With this text as a sidecar. -/
def World.written (w : World β) (name text : Str) : World β :=
  { w with sidecar := Function.update w.sidecar name (some text) }

@[simp] theorem World.written_tar (w : World β) (name text : Str) : (w.written name text).tar = w.tar := rfl

@[simp] theorem World.written_sidecar (w : World β) (name text : Str) :
    (w.written name text).sidecar = Function.update w.sidecar name (some text) := rfl

@[simp] theorem World.written_written (w : World β) (name text text' : Str) :
    (w.written name text).written name text' = w.written name text' := by
  simp [World.written]

section
variable (flaky : Prop) (sha256 : β → Str) (cdn : Str → β)

/-- What a call comes to. Where things are not flaky the download is what is there, and
nothing but a check fails that can be done. A write that fails may have torn the sidecar. -/
inductive Disk : Env (World β) Cmd Ans where
  | exists_ {w : World β} {name : Str} : Disk w (.exists_ name) (w.tar name).isSome w
  | download {w : World β} {url name : Str} {b : β} : b = cdn name ∨ flaky →
      Disk w (.download url name) true { w with part := Function.update w.part name (some b) }
  | noDownload {w : World β} {url name : Str} {b : Option β} : flaky →
      Disk w (.download url name) false { w with part := Function.update w.part name b }
  | rename {w : World β} {name : Str} {b : β} : w.part name = some b → Disk w (.rename name) true
      { w with tar := Function.update w.tar name (some b), part := Function.update w.part name none }
  | noRename {w : World β} {name : Str} : w.part name = none ∨ flaky → Disk w (.rename name) false w
  | hasSidecar {w : World β} {name : Str} : Disk w (.hasSidecar name) (w.sidecar name).isSome w
  | digest {w : World β} {name : Str} {b : β} : w.tar name = some b → Disk w (.digest name) (some (sha256 b)) w
  | noDigest {w : World β} {name : Str} : w.tar name = none ∨ flaky → Disk w (.digest name) none w
  | writeSidecar {w : World β} {name text : Str} :
      Disk w (.writeSidecar name text) true (w.written name text)
  | tornSidecar {w : World β} {name text torn : Str} : flaky → torn <+: text →
      Disk w (.writeSidecar name text) false (w.written name torn)
  | noSidecar {w : World β} {name text : Str} : flaky → Disk w (.writeSidecar name text) false w
  | readSidecar {w : World β} {name text : Str} : w.sidecar name = some text →
      Disk w (.readSidecar name) (some text) w
  | noRead {w : World β} {name : Str} : w.sidecar name = none ∨ flaky → Disk w (.readSidecar name) none w
  /-- The one line of the sidecar is a digest and the file that has it. -/
  | check {w : World β} {name file : Str} {b : β} {tail : Str} : tail = ['\n'] ∨ tail = [] →
      w.sidecar name = some (sha256 b ++ [' ', ' '] ++ file ++ tail) → w.tar file = some b →
      Disk w (.check name) true w
  | noCheck {w : World β} {name : Str} : Disk w (.check name) false w

end

/-! ### Names -/

def mqSuffixes : List Str :=
  ["UbuntuLinuxARM64".toList, "UbuntuLinuxX64".toList, "LinuxARM64".toList, "LinuxX64".toList]

/-- What the pin gives. -/
def IsVersion (version : Str) : Prop := ∀ c ∈ version, c ∈ "0123456789.".toList

/-- The name of a tarball of some version. -/
def IsTarball (name : Str) : Prop :=
  ∃ version : Str, IsVersion version ∧ ∃ suffix ∈ mqSuffixes, name = tarballOf version suffix

theorem IsVersion.no_dash {version : Str} (h : IsVersion version) : '-' ∉ version := by
  have hall : ∀ c ∈ "0123456789.".toList, c ≠ '-' := by decide +kernel
  exact fun hm => hall '-' (h '-' hm) rfl

theorem eq_of_append_cons {α : Type} {a : α} {s t u v : List α} (hs : a ∉ s) (ht : a ∉ t)
    (h : s ++ a :: u = t ++ a :: v) : s = t ∧ u = v := by
  induction s generalizing t with
  | nil =>
    cases t with
    | nil => exact ⟨rfl, (List.cons.inj h).2⟩
    | cons c t => exact absurd (List.mem_cons.mpr (.inl (List.cons.inj h).1)) ht
  | cons c s ih =>
    cases t with
    | nil => exact absurd (List.mem_cons.mpr (.inl (List.cons.inj h).1.symm)) hs
    | cons d t =>
      obtain ⟨rfl, h'⟩ := List.cons.inj h
      obtain ⟨rfl, rfl⟩ := ih (fun hm => hs (List.mem_cons_of_mem c hm)) (fun hm => ht (List.mem_cons_of_mem c hm)) h'
      exact ⟨rfl, rfl⟩

/-- No tarball's name goes on to be another's. -/
theorem IsTarball.eq_of_prefix {a b : Str} (ha : IsTarball a) (hb : IsTarball b) (h : a <+: b) : a = b := by
  obtain ⟨v, hv, s, hs, rfl⟩ := ha
  obtain ⟨v', hv', s', hs', rfl⟩ := hb
  obtain ⟨r, hr⟩ := h
  have hdash : ∀ v s : Str,
      tarballOf v s = v ++ '-' :: ("IBM-MQ-Advanced-for-Developers-".toList ++ s ++ ".tar.gz".toList) := by
    intro v s
    simp [tarballOf]
  rw [hdash, hdash, List.append_assoc, List.cons_append] at hr
  obtain ⟨rfl, hrest⟩ := eq_of_append_cons hv.no_dash hv'.no_dash hr
  have hsuffix : s ++ ".tar.gz".toList <+: s' ++ ".tar.gz".toList := by
    refine ⟨r, ?_⟩
    simpa only [List.append_assoc, List.append_cancel_left_eq] using hrest
  have hall : ∀ s ∈ mqSuffixes, ∀ s' ∈ mqSuffixes, s ++ ".tar.gz".toList <+: s' ++ ".tar.gz".toList → s = s' := by
    decide +kernel
  rw [hall s hs s' hs' hsuffix]

theorem IsTarball.ne_concat {a : Str} (ha : IsTarball a) (b : Str) : a ≠ b ++ ['\n'] := by
  obtain ⟨v, -, s, -, rfl⟩ := ha
  intro h
  have hz : (".tar.gz".toList).getLast? = some 'z' := by decide +kernel
  have hlast := congrArg List.getLast? h
  rw [tarballOf, List.getLast?_append, List.getLast?_concat, hz, Option.some_or] at hlast
  exact absurd hlast (by decide)

/-! ### Sidecars -/

/-- What `sha256sum` and `hexdigest` write. -/
structure IsDigest (d : Str) : Prop where
  ne_nil : d ≠ []
  hex : ∀ c ∈ d, c ∈ "0123456789abcdef".toList

theorem IsDigest.not_space {d : Str} (h : IsDigest d) : ∀ c ∈ d, Re.isSpace c = false := by
  have hall : ∀ c ∈ "0123456789abcdef".toList, Re.isSpace c = false := by decide +kernel
  exact fun c hc => hall c (h.hex c hc)

theorem IsDigest.lower {d : Str} (h : IsDigest d) : d.map Char.toLower = d := by
  have hall : ∀ c ∈ "0123456789abcdef".toList, c.toLower = c := by decide +kernel
  exact (List.map_congr_left fun c hc => hall c (h.hex c hc)).trans (List.map_id' d)

/-- The digest of a line is its first word. -/
theorem expected_line {d : Str} (h : IsDigest d) (rest : Str) : expected (d ++ [' ', ' '] ++ rest) = some d := by
  have hsplit : (d ++ ' ' :: ' ' :: rest).splitOnP Re.isSpace = d :: (' ' :: rest).splitOnP Re.isSpace :=
    List.splitOnP_append_cons_of_forall_mem (fun c hc => by simp [h.not_space c hc]) ' ' (by decide) _
  have hline : d ++ [' ', ' '] ++ rest = d ++ ' ' :: ' ' :: rest := by simp
  rw [expected, words, hline, hsplit]
  simp [h.ne_nil, h.lower]

/-- A line that was torn and still names a tarball was torn at its end. -/
theorem line_of_prefix {d d' name file tail : Str} (hd : IsDigest d) (hd' : IsDigest d') (hname : IsTarball name)
    (hfile : IsTarball file) (h : d' ++ [' ', ' '] ++ file ++ tail <+: sidecarLine d name) : d' = d ∧ file = name := by
  obtain ⟨r, hr⟩ := h
  have hspace : ∀ {d : Str}, IsDigest d → ' ' ∉ d := fun hd hm => absurd (hd.not_space ' ' hm) (by decide)
  have heq : d' ++ ' ' :: (' ' :: (file ++ tail ++ r)) = d ++ ' ' :: (' ' :: (name ++ ['\n'])) := by
    simpa [sidecarLine] using hr
  obtain ⟨rfl, hrest⟩ := eq_of_append_cons (hspace hd') (hspace hd) heq
  refine ⟨rfl, ?_⟩
  have hprefix : file <+: name ++ ['\n'] := ⟨tail ++ r, by simpa using (List.cons.inj hrest).2⟩
  rcases List.prefix_concat_iff.mp hprefix with heq | hpre
  · -- a name has no line break
    exact absurd heq (hfile.ne_concat name)
  · exact hfile.eq_of_prefix hname hpre

end MqCache
end MqResiliency
