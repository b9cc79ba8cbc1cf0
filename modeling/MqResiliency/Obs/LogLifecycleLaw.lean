/-
# What the stale flag says

The body of the log-lifecycle collector tells the truth (`Truthful`) if its
stale flag reads 0 where all four values are in it and only there, a reading of
`df` without its numbers sets the flag, and the two counts are those of the
extents in the listing (`IsExtent`).

The flag follows the probes, not what was read of them: `truthful_iff` says
exactly on which readings it tells the truth.

Key theorems: `countExtents_eq`, `truthful_iff`.
-/
import MqResiliency.Obs.SeriesLaw

namespace MqResiliency
namespace Obs
namespace LogLifecycle

open Py

/-! ### The extents of a listing -/

/-- A line of the listing names an extent: the letter, digits and `.LOG`, with
blanks around it or none. -/
def IsExtent (letter : Char) (line : Str) : Prop :=
  ∃ digits : Str, digits ≠ [] ∧ (∀ d ∈ digits, (decimal d).isSome) ∧ trim line = letter :: digits ++ ".LOG".toList

theorem takeWhile_digits {digits : Str} (h : ∀ d ∈ digits, (decimal d).isSome) :
    (digits ++ ".LOG".toList).takeWhile (fun d => (decimal d).isSome) = digits := by
  have hpoint : (decimal '.').isSome = false := by decide
  have hlog : ".LOG".toList = ['.', 'L', 'O', 'G'] := rfl
  rw [List.takeWhile_append_of_pos h, hlog, List.takeWhile_cons_of_neg (by simp [hpoint]), List.append_nil]

theorem dropWhile_digits {digits : Str} (h : ∀ d ∈ digits, (decimal d).isSome) :
    (digits ++ ".LOG".toList).dropWhile (fun d => (decimal d).isSome) = ".LOG".toList := by
  have hpoint : (decimal '.').isSome = false := by decide
  have hlog : ".LOG".toList = ['.', 'L', 'O', 'G'] := rfl
  rw [List.dropWhile_append_of_pos h, hlog, List.dropWhile_cons_of_neg (by simp [hpoint])]

/-- The pattern matches the extents of its two letters. -/
theorem extentLetter_eq_some {letter : Char} (hletter : letter = 'S' ∨ letter = 'R') (line : Str) :
    extentLetter (trim line) = some letter ↔ IsExtent letter line := by
  unfold IsExtent
  generalize trim line = name
  constructor
  · intro h
    cases name with
    | nil => cases h
    | cons c s =>
      simp only [extentLetter, Option.ite_none_right_eq_some, Option.some.injEq] at h
      obtain ⟨⟨-, hdigits, hlog⟩, rfl⟩ := h
      refine ⟨s.takeWhile fun d => (decimal d).isSome, hdigits, fun d hd => by simpa using List.mem_takeWhile_imp hd, ?_⟩
      rw [List.cons_append, ← hlog, List.takeWhile_append_dropWhile]
  · rintro ⟨digits, hne, hall, rfl⟩
    simp only [List.cons_append, extentLetter]
    rw [takeWhile_digits hall, dropWhile_digits hall, if_pos ⟨hletter, hne, rfl⟩]

instance (letter : Char) (line : Str) : Decidable (IsExtent letter line) :=
  decidable_of_iff (((trim line).drop 1).takeWhile (fun d => (decimal d).isSome) ≠ [] ∧
      trim line = letter :: ((trim line).drop 1).takeWhile (fun d => (decimal d).isSome) ++ ".LOG".toList) <| by
    constructor
    · intro ⟨hne, heq⟩
      exact ⟨_, hne, fun d hd => by simpa using List.mem_takeWhile_imp hd, heq⟩
    · rintro ⟨digits, hne, hall, heq⟩
      rw [heq, List.cons_append, List.drop_one, List.tail_cons, takeWhile_digits hall]
      exact ⟨hne, rfl⟩

/-- **What is counted are the extents of the listing.** -/
theorem countExtents_eq {letter : Char} (hletter : letter = 'S' ∨ letter = 'R') (listing : List Str) :
    countExtents letter listing = listing.countP fun line => IsExtent letter line := by
  unfold countExtents
  refine List.countP_congr fun line _ => ?_
  simp only [decide_eq_true_eq]
  exact extentLetter_eq_some hletter line

/-! ### What a body says -/

def usedName : Str := "mqlab_log_disk_used_bytes".toList

def totalName : Str := "mqlab_log_disk_total_bytes".toList

def activeName : Str := "mqlab_log_extents_active".toList

def inactiveName : Str := "mqlab_log_extents_inactive".toList

def staleName : Str := "mqlab_log_sample_stale".toList

/-- The four value metrics. -/
def valueNames : List Str := [usedName, totalName, activeName, inactiveName]

/-- The metric is in the body. -/
def Emits (l : List Sample) (name : Str) : Prop := ∃ s ∈ l, s.name = name

/-- The metric is in the body, with this value. -/
def Reports (l : List Sample) (name : Str) (value : Value) : Prop := ∃ s ∈ l, s.name = name ∧ s.value = value

/-- The body is written, and its flag and its counts are true. -/
structure Truthful (py : Runtime) (inst qm : Str) (p : LogProbes) : Prop where
  returns : (body (samples py inst qm p)).isSome
  fresh_iff : Reports (samples py inst qm p) staleName (flag false) ↔
    ∀ name ∈ valueNames, Emits (samples py inst qm p) name
  degrades : ∀ df, p.disk = some df → parseDisk df.text = none →
    Reports (samples py inst qm p) staleName (flag true)
  active : ∀ ls, p.extents = some ls → ∀ value, Reports (samples py inst qm p) activeName value ↔
    value = .int ((splitlines ls.text).countP fun line => IsExtent 'S' line : ℕ)
  inactive : ∀ ls, p.extents = some ls → ∀ value, Reports (samples py inst qm p) inactiveName value ↔
    value = .int ((splitlines ls.text).countP fun line => IsExtent 'R' line : ℕ)

/-! ### What is rendered -/

section
variable {l l' : List Sample} {name : Str} {value : Value}

theorem reports_append : Reports (l ++ l') name value ↔ Reports l name value ∨ Reports l' name value := by
  simp only [Reports, List.mem_append, or_and_right, exists_or]

theorem reports_cons {s : Sample} : Reports (s :: l) name value ↔
    s.name = name ∧ s.value = value ∨ Reports l name value := by
  simp only [Reports, List.mem_cons, or_and_right, exists_or, exists_eq_left]

theorem not_reports_nil : ¬ Reports [] name value := by
  rintro ⟨s, hs, -⟩
  exact absurd hs List.not_mem_nil

theorem reports_elim {α : Type} {f : α → List Sample} {o : Option α} :
    Reports (o.elim [] f) name value ↔ ∃ a, o = some a ∧ Reports (f a) name value := by
  cases o with
  | none => simp [not_reports_nil]
  | some a => simp

theorem emits_iff : Emits l name ↔ ∃ value, Reports l name value := by
  constructor
  · intro ⟨s, hs, hname⟩
    exact ⟨s.value, s, hs, hname, rfl⟩
  · intro ⟨_, s, hs, hname, _⟩
    exact ⟨s, hs, hname⟩

/-- What a row's body reports. -/
theorem reports_render (r : Row) : Reports (render r) name value ↔
    (((∃ d, r.disk = some d ∧ (usedName = name ∧ .int d.usedBytes = value ∨
            totalName = name ∧ .int d.totalBytes = value)) ∨
          ∃ n : ℕ, r.active = some n ∧ activeName = name ∧ .int n = value) ∨
        ∃ n : ℕ, r.inactive = some n ∧ inactiveName = name ∧ .int n = value) ∨
      staleName = name ∧ flag r.stale = value := by
  unfold render
  simp only [reports_append, reports_elim, reports_cons, not_reports_nil, or_false]
  rfl

end

section
variable (r : Row) (value : Value)

theorem reports_used : Reports (render r) usedName value ↔ ∃ d, r.disk = some d ∧ .int d.usedBytes = value := by
  have hnames : totalName ≠ usedName ∧ activeName ≠ usedName ∧ inactiveName ≠ usedName ∧ staleName ≠ usedName := by
    decide
  rw [reports_render]
  simp [hnames]

theorem reports_total : Reports (render r) totalName value ↔ ∃ d, r.disk = some d ∧ .int d.totalBytes = value := by
  have hnames : usedName ≠ totalName ∧ activeName ≠ totalName ∧ inactiveName ≠ totalName ∧ staleName ≠ totalName := by
    decide
  rw [reports_render]
  simp [hnames]

theorem reports_active : Reports (render r) activeName value ↔ ∃ n : ℕ, r.active = some n ∧ .int n = value := by
  have hnames : usedName ≠ activeName ∧ totalName ≠ activeName ∧ inactiveName ≠ activeName ∧ staleName ≠ activeName := by
    decide
  rw [reports_render]
  simp [hnames]

theorem reports_inactive : Reports (render r) inactiveName value ↔ ∃ n : ℕ, r.inactive = some n ∧ .int n = value := by
  have hnames : usedName ≠ inactiveName ∧ totalName ≠ inactiveName ∧ activeName ≠ inactiveName ∧
      staleName ≠ inactiveName := by decide
  rw [reports_render]
  simp [hnames]

theorem reports_stale : Reports (render r) staleName value ↔ flag r.stale = value := by
  have hnames : usedName ≠ staleName ∧ totalName ≠ staleName ∧ activeName ≠ staleName ∧ inactiveName ≠ staleName := by
    decide
  rw [reports_render]
  simp [hnames]

/-- All four values are there where all of the row is. -/
theorem emits_values : (∀ name ∈ valueNames, Emits (render r) name) ↔
    r.disk.isSome ∧ r.active.isSome ∧ r.inactive.isSome := by
  simp only [valueNames, List.forall_mem_cons, List.not_mem_nil, emits_iff, reports_used, reports_total, reports_active,
    reports_inactive]
  cases r.disk <;> cases r.active <;> cases r.inactive <;> simp

end

theorem flag_inj {b b' : Bool} : flag b = flag b' ↔ b = b' := by
  cases b <;> cases b' <;> simp [flag]

/-- What prints is what is reported. -/
theorem prints_iff {l : List Sample} : Prints l ↔ ∀ name value, Reports l name value → value.text.isSome := by
  constructor
  · rintro h name value ⟨s, hs, -, rfl⟩
    exact h s hs
  · exact fun h s hs => h s.name s.value ⟨s, hs, rfl, rfl⟩

/-! ### When the flag tells the truth -/

/-- The numbers that `df` gave print, in bytes. -/
def DiskShows (p : LogProbes) : Prop :=
  ∀ df d, p.disk = some df → parseDisk df.text = some d → Shows d.usedBytes ∧ Shows d.totalBytes

section
variable {py : Runtime} {inst qm : Str} {p : LogProbes}

theorem disk_row {d : Disk} : (row py inst qm p).disk = some d ↔ ∃ df, p.disk = some df ∧ parseDisk df.text = some d :=
  Option.bind_eq_some_iff

theorem stale_row : (row py inst qm p).stale = false ↔ p.disk.isSome ∧ p.extents.isSome := by
  show (p.disk.isNone || p.extents.isNone) = false ↔ _
  rw [Bool.or_eq_false_iff, Option.isNone_eq_false_iff, Option.isNone_eq_false_iff]

/-- The body is written unless a number of `df` is too long. -/
theorem isSome_body_samples : (body (samples py inst qm p)).isSome ↔ DiskShows p := by
  unfold samples
  rw [isSome_body, prints_iff]
  constructor
  · intro h df d hdf hd
    have hrow : (row py inst qm p).disk = some d := disk_row.mpr ⟨df, hdf, hd⟩
    exact ⟨h usedName _ ((reports_used _ _).mpr ⟨d, hrow, rfl⟩), h totalName _ ((reports_total _ _).mpr ⟨d, hrow, rfl⟩)⟩
  · intro h name value hvalue
    have hcount : ∀ letter n, p.extents.map (fun ls => countExtents letter (splitlines ls.text)) = some n →
        (Value.int (n : ℕ)).text.isSome := by
      intro letter n hn
      obtain ⟨ls, -, rfl⟩ := Option.map_eq_some_iff.mp hn
      exact isSome_small (by rw [Int.natAbs_natCast]; exact count_lt letter ls)
    rcases (reports_render _).mp hvalue with ((⟨d, hd, hbytes⟩ | ⟨n, hn, -, rfl⟩) | ⟨n, hn, -, rfl⟩) | ⟨-, rfl⟩
    · obtain ⟨df, hdf, hparse⟩ := disk_row.mp hd
      obtain ⟨hused, htotal⟩ := h df d hdf hparse
      rcases hbytes with ⟨-, rfl⟩ | ⟨-, rfl⟩
      · exact hused
      · exact htotal
    · exact hcount 'S' n hn
    · exact hcount 'R' n hn
    · exact isSome_flag _

/-- A count that is reported is that of the extents in the listing. -/
theorem reports_count {letter : Char} (hletter : letter = 'S' ∨ letter = 'R') {ls : Output} (hls : p.extents = some ls)
    {value : Value} : (∃ n : ℕ, p.extents.map (fun ls => countExtents letter (splitlines ls.text)) = some n ∧
        .int n = value) ↔ value = .int ((splitlines ls.text).countP fun line => IsExtent letter line : ℕ) := by
  rw [hls, Option.map_some, countExtents_eq hletter]
  simp [eq_comm]

/-- **When the stale flag tells the truth**: where `df`'s numbers print and,
if the listing was read as well, are there. -/
theorem truthful_iff : Truthful py inst qm p ↔
    DiskShows p ∧ ∀ df, p.disk = some df → p.extents.isSome → (parseDisk df.text).isSome := by
  constructor
  · intro h
    refine ⟨isSome_body_samples.mp h.returns, fun df hdf hls => ?_⟩
    by_contra hparse
    -- both probes came to a text, so the flag reads 0
    have hfresh : (row py inst qm p).stale = false := stale_row.mpr ⟨hdf ▸ rfl, hls⟩
    have hflag := (reports_stale _ _).mp (h.degrades df hdf (by simpa using hparse))
    rw [hfresh] at hflag
    exact absurd (flag_inj.mp hflag) (by simp)
  · intro ⟨hshows, hreads⟩
    refine ⟨isSome_body_samples.mpr hshows, ?_, fun df hdf hparse => ?_, fun ls hls value => ?_, fun ls hls value => ?_⟩
    · unfold samples
      rw [reports_stale, emits_values, flag_inj, stale_row]
      have hextents : ∀ letter, (p.extents.map fun ls => countExtents letter (splitlines ls.text)).isSome ↔
          p.extents.isSome := fun letter => by rw [Option.isSome_map]
      have hdisk : p.extents.isSome → ((row py inst qm p).disk.isSome ↔ p.disk.isSome) := by
        intro hls
        cases hdf : p.disk with
        | none => simp [row, hdf]
        | some df => simpa [row, hdf] using hreads df hdf hls
      show _ ↔ _ ∧ (Option.map _ p.extents).isSome ∧ (Option.map _ p.extents).isSome
      rw [hextents, hextents]
      constructor
      · intro ⟨hdf, hls⟩
        exact ⟨(hdisk hls).mpr hdf, hls, hls⟩
      · intro ⟨hdf, hls, _⟩
        exact ⟨(hdisk hls).mp hdf, hls⟩
    · unfold samples
      rw [reports_stale, flag_inj]
      by_contra hstale
      have hls := (stale_row.mp (by simpa using hstale)).2
      have hsome := hreads df hdf hls
      rw [hparse] at hsome
      exact absurd hsome (by simp)
    · exact (reports_active _ _).trans (reports_count (.inl rfl) hls)
    · exact (reports_inactive _ _).trans (reports_count (.inr rfl) hls)

end

/-! ### A garbled reading -/

/-- Both probes succeed, and `df`'s numbers are none. -/
def garbledProbes : LogProbes where
  role := none
  disk := some ⟨"Filesystem blocks\n/dev/vda2 not-a-number also-bad x y z\n".toList, by decide +kernel⟩
  extents := some ⟨"S0000000.LOG\n".toList, by decide +kernel⟩

/-- The flag reads 0, and no value of the disk is there. -/
theorem garbled_reads_fresh :
    Reports (samples oneNode "nha-a1".toList "NHARCAPP".toList garbledProbes) staleName (flag false) ∧
      ¬ Emits (samples oneNode "nha-a1".toList "NHARCAPP".toList garbledProbes) usedName ∧
      ¬ Truthful oneNode "nha-a1".toList "NHARCAPP".toList garbledProbes := by
  have hparse : garbledProbes.disk.bind (fun df => parseDisk df.text) = none := by decide +kernel
  refine ⟨(reports_stale _ _).mpr rfl, fun hused => ?_, fun htrue => ?_⟩
  · obtain ⟨value, hvalue⟩ := emits_iff.mp hused
    obtain ⟨d, hd, -⟩ := (reports_used _ _).mp hvalue
    exact absurd (hparse.symm.trans hd) (by simp)
  · have hflag := (reports_stale _ _).mp (htrue.degrades _ rfl hparse)
    exact absurd (flag_inj.mp hflag) (by decide)

end LogLifecycle
end Obs
end MqResiliency
