/-
# A tarball is what it was first

The worlds that runs of the two programs lead to, each cut off anywhere, while
tarballs are damaged, removed and placed by hand (`Moves`). All runs that return
have handed out tarballs of one digest, whichever program they were
(`acquired_agree`). A run of `ensureMqTarballs` returns where every sidecar fits
what is there, or is downloaded, and only there (`ensure_iff`); after a run of
`fetchMq` it finds all it needs (`fetched_suffices`).
-/
import Mathlib.Data.List.Dedup
import MqResiliency.Lab.MqCacheRuns

namespace MqResiliency
namespace MqCache

open Py Lab Prog

variable {β : Type} {flaky bad : Prop} {sha256 : β → Str} {cdn : Str → β} {I : World β → Prop} {w w' : World β}
  {name : Str}

/-! ### The names of a run -/

/-- What one of the programs is run for. -/
inductive Fill : Type where
  | ensure (version : Str) (boxes : List BoxEntry) (facts : HostFacts)
  | fetch (version machine : Str)

namespace Fill

def version : Fill → Str
  | ensure version _ _ => version
  | fetch version _ => version

def prog : Fill → Cache Unit
  | ensure version boxes facts => do
    let _ ← ensureMqTarballs version boxes facts
    pure ()
  | fetch version machine => fetchMq version machine

/-- The tarballs that it hands out. -/
def names : Fill → List Str
  | ensure version boxes facts =>
    match boxes.mapM fun entry => tarballName version entry facts with
    | .error _ => []
    | .ok names => sortedStrs names.dedup
  | fetch version machine => ((suffixes machine).getD []).map (tarballOf version)

end Fill

/-- The suffix that a box asks for. -/
theorem suffix_of_tarballName {version : Str} {entry : BoxEntry} {facts : HostFacts}
    (h : tarballName version entry facts = .ok name) :
    ∃ family token, familyPrefix entry.os.ref.family = some family ∧
      mqArchToken (boxBuildArch entry.os.archPin facts) = some token ∧ name = tarballOf version (family ++ token) := by
  unfold tarballName at h
  cases hfamily : familyPrefix entry.os.ref.family with
  | none => simp [hfamily] at h
  | some family =>
    cases htoken : mqArchToken (boxBuildArch entry.os.archPin facts) with
    | none => simp [hfamily, htoken] at h
    | some token => exact ⟨family, token, rfl, rfl, by simpa [hfamily, htoken] using h.symm⟩

theorem mem_mqSuffixes {family arch prefix_ token : Str} (hfamily : familyPrefix family = some prefix_)
    (harch : mqArchToken arch = some token) : prefix_ ++ token ∈ mqSuffixes := by
  have hall : ∀ p ∈ ["UbuntuLinux".toList, "Linux".toList], ∀ t ∈ ["ARM64".toList, "X64".toList],
      p ++ t ∈ mqSuffixes := by
    decide +kernel
  unfold familyPrefix at hfamily
  unfold mqArchToken at harch
  refine hall _ ?_ _ ?_
  · split_ifs at hfamily <;> simp [Option.some.inj hfamily.symm]
  · split_ifs at harch <;> simp [Option.some.inj harch.symm]

theorem suffixes_spec {machine : Str} {ss : List Str} (h : suffixes machine = some ss) :
    ss.Nodup ∧ ∀ s ∈ ss, s ∈ mqSuffixes := by
  have hall : ∀ ss ∈ [["UbuntuLinuxARM64".toList, "LinuxX64".toList], ["UbuntuLinuxX64".toList, "LinuxX64".toList]],
      ss.Nodup ∧ ∀ s ∈ ss, s ∈ mqSuffixes := by
    decide +kernel
  refine hall ss ?_
  unfold suffixes at h
  split_ifs at h <;> simp [Option.some.inj h.symm]

theorem tarballOf_injective (version : Str) : Function.Injective (tarballOf version) := by
  intro s s' h
  simpa [tarballOf] using h

namespace Fill

variable {version machine : Str} {boxes : List BoxEntry} {facts : HostFacts}

theorem names_ensure {names : List Str} (h : (boxes.mapM fun entry => tarballName version entry facts) = .ok names) :
    (ensure version boxes facts).names = sortedStrs names.dedup := by
  show (match boxes.mapM fun entry => tarballName version entry facts with
    | .error _ => []
    | .ok names => sortedStrs names.dedup) = _
  rw [h]

theorem names_ensure_error {e : NameError} (h : (boxes.mapM fun entry => tarballName version entry facts) = .error e) :
    (ensure version boxes facts).names = [] := by
  show (match boxes.mapM fun entry => tarballName version entry facts with
    | .error _ => []
    | .ok names => sortedStrs names.dedup) = _
  rw [h]

theorem names_fetch : (fetch version machine).names = ((suffixes machine).getD []).map (tarballOf version) := rfl

theorem nodup_names (r : Fill) : r.names.Nodup := by
  cases r with
  | ensure version boxes facts =>
    cases h : boxes.mapM fun entry => tarballName version entry facts with
    | error e =>
      rw [names_ensure_error h]
      exact List.nodup_nil
    | ok names =>
      rw [names_ensure h]
      exact (List.perm_insertionSort _ _).nodup_iff.mpr names.nodup_dedup
  | fetch version machine =>
    rw [names_fetch]
    cases h : suffixes machine with
    | none => exact List.nodup_nil
    | some ss => exact (suffixes_spec h).1.map (tarballOf_injective version)

theorem isTarball (r : Fill) (hversion : IsVersion r.version) : ∀ name ∈ r.names, IsTarball name := by
  intro name hname
  cases r with
  | ensure version boxes facts =>
    cases h : boxes.mapM fun entry => tarballName version entry facts with
    | error e => simp [names_ensure_error h] at hname
    | ok names =>
      rw [names_ensure h, mem_sortedStrs, List.mem_dedup] at hname
      obtain ⟨entry, -, hentry⟩ := (mem_of_mapM h name).mp hname
      obtain ⟨family, token, hfamily, htoken, rfl⟩ := suffix_of_tarballName hentry
      exact ⟨version, hversion, _, mem_mqSuffixes hfamily htoken, rfl⟩
  | fetch version machine =>
    rw [names_fetch] at hname
    obtain ⟨s, hs, rfl⟩ := List.mem_map.mp hname
    cases h : suffixes machine with
    | none => simp [h] at hs
    | some ss => exact ⟨version, hversion, s, (suffixes_spec h).2 s (by simpa [h] using hs), rfl⟩

end Fill

/-! ### Runs -/

section
variable (hhex : ∀ b, IsDigest (sha256 b))
include hhex

theorem leads_ensure {version : Str} {boxes : List BoxEntry} {facts : HostFacts}
    (hA : ∀ name ∈ (Fill.ensure version boxes facts).names, Allows sha256 I name) (hI : I w) {names : List Str}
    (hnames : (boxes.mapM fun entry => tarballName version entry facts) = .ok names)
    (hbad : flaky ∨ ¬ (∀ name ∈ names, Fits sha256 w name ((w.tar name).getD (cdn name))) → bad) :
    Leads bad flaky sha256 cdn I (ensureMqTarballs version boxes facts)
      (fun ns w' => ns = sortedStrs names.dedup ∧ Done I sha256 (sortedStrs names.dedup) w w' ∧
        (flaky ∨ ∀ name ∈ names, Fits sha256 w name ((w.tar name).getD (cdn name)))) w := by
  have hmem : ∀ name, name ∈ sortedStrs names.dedup ↔ name ∈ names := by simp [mem_sortedStrs]
  have hnodup := Fill.nodup_names (.ensure version boxes facts)
  rw [Fill.names_ensure hnames] at hA hnodup
  have hlocal : ∀ {w w' : World β} {name : Str}, w'.tar name = w.tar name → w'.sidecar name = w.sidecar name →
      (Fits sha256 w' name ((w'.tar name).getD (cdn name)) ↔ Fits sha256 w name ((w.tar name).getD (cdn name))) := by
    intro w w' name htar hside
    rw [Fits, Fits, htar, hside]
  unfold ensureMqTarballs
  rw [hnames]
  refine wp_then (leads_forEach (A := fun w name => Fits sha256 w name ((w.tar name).getD (cdn name)))
    hlocal hnodup hI ?_ fun name hname w hI hbad => leads_ensureOne hhex (hA name hname) hI hbad) ?_
  · exact fun h => hbad (h.imp id fun hno hall => hno fun name hname => hall name ((hmem name).mp hname))
  · rintro - w' ⟨hdone, hfits⟩
    exact ⟨rfl, hdone, hfits.imp id fun hfits name hname => hfits name ((hmem name).mpr hname)⟩

theorem leads_fill (r : Fill) (hversion : IsVersion r.version) (hs : Sound sha256 w) :
    Leads True flaky sha256 cdn (Kept sha256 w) r.prog (fun _ w' => Done (Kept sha256 w) sha256 r.names w w') w := by
  cases r with
  | ensure version boxes facts =>
    show Leads True flaky sha256 cdn (Kept sha256 w) (ensureMqTarballs version boxes facts >>= fun _ => pure ()) _ w
    refine leads_bind ?_
    cases hnames : boxes.mapM fun entry => tarballName version entry facts with
    | error e =>
      unfold ensureMqTarballs
      rw [hnames]
      trivial
    | ok names =>
      refine wp_post (leads_ensure hhex (fun name hname =>
        allows_kept (Fill.isTarball _ hversion name hname)) (Kept.refl hs) hnames fun _ => trivial) ?_
      rintro - w' ⟨-, hdone, -⟩
      rwa [Fill.names_ensure hnames]
  | fetch version machine =>
    show Leads True flaky sha256 cdn (Kept sha256 w) (fetchMq version machine) _ w
    have hnodup := Fill.nodup_names (.fetch version machine)
    have htar := Fill.isTarball (.fetch version machine) hversion
    unfold fetchMq
    cases hss : suffixes machine with
    | none => trivial
    | some ss =>
      simp only [Fill.names_fetch, hss, Option.getD_some] at hnodup htar ⊢
      refine wp_post (leads_forEach (A := fun _ _ => True) (fun _ _ => Iff.rfl) hnodup (Kept.refl hs)
        (fun _ => trivial) fun name hname w₁ hk _ => ?_) fun _ _ h => h.1
      exact wp_post (leads_fetchOne hhex (htar name hname) hk) fun _ _ h => ⟨h, .inr trivial⟩

end

/-! ### A lab -/

/-- A cache with nothing in it. -/
def cold : World β := ⟨fun _ => none, fun _ => none, fun _ => none⟩

/-- A digest of two tarballs. -/
def stamp (b : Bool) : Str := if b then "a1".toList else "b2".toList

theorem isDigest_stamp (b : Bool) : IsDigest (stamp b) := by
  cases b
  · exact ⟨by decide, by decide +kernel⟩
  · exact ⟨by decide, by decide +kernel⟩

/-- A directory and a network that work. -/
def works (w : World Bool) : (c : Cmd) → Ans c × World Bool
  | .exists_ name => ((w.tar name).isSome, w)
  | .download _ name => (true, { w with part := Function.update w.part name (some true) })
  | .rename name =>
    match w.part name with
    | some b => (true, { w with tar := Function.update w.tar name (some b), part := Function.update w.part name none })
    | none => (false, w)
  | .hasSidecar name => ((w.sidecar name).isSome, w)
  | .digest name => ((w.tar name).map stamp, w)
  | .writeSidecar name text => (true, { w with sidecar := Function.update w.sidecar name (some text) })
  | .readSidecar name => (w.sidecar name, w)
  | .check name =>
    match w.tar name with
    | some b => (w.sidecar name == some (sidecarLine (stamp b) name), w)
    | none => (false, w)

theorem disk_works (flaky : Prop) (w : World Bool) (c : Cmd) :
    Disk flaky stamp (fun _ => true) w c (works w c).1 (works w c).2 := by
  cases c with
  | exists_ name => exact .exists_
  | download url name => exact .download (.inl rfl)
  | rename name =>
    cases h : w.part name with
    | some b => simpa [works, h] using Disk.rename h
    | none => simpa [works, h] using Disk.noRename (.inl h)
  | hasSidecar name => exact .hasSidecar
  | digest name =>
    cases h : w.tar name with
    | some b => simpa [works, h] using Disk.digest h
    | none => simpa [works, h] using Disk.noDigest (.inl h)
  | writeSidecar name text => exact .writeSidecar
  | readSidecar name =>
    cases h : w.sidecar name with
    | some text => simpa [works, h] using Disk.readSidecar h
    | none => simpa [works, h] using Disk.noRead (.inl h)
  | check name =>
    cases h : w.tar name with
    | none => simpa [works, h] using Disk.noCheck
    | some b =>
      by_cases hside : w.sidecar name = some (sidecarLine (stamp b) name)
      · simpa [works, h, hside] using Disk.check (.inl rfl) hside h
      · have hno : (w.sidecar name == some (sidecarLine (stamp b) name)) = false := by simpa using hside
        simpa [works, h, hno] using Disk.noCheck

/-- Whether a program has returned. -/
def isRet {α : Type} : Cache α → Bool
  | .ret _ => true
  | _ => false

theorem eq_of_isRet {p : Cache Unit} (h : isRet p = true) : p = .ret () := by
  cases p with
  | ret a => rfl
  | raise e => exact absurd h (by simp [isRet])
  | stop => exact absurd h (by simp [isRet])
  | call c k => exact absurd h (by simp [isRet])

/-- A box of the host's own Ubuntu. -/
def webBox : BoxEntry where
  name := "web".toList
  role := "web".toList
  os :=
    { ref := ⟨"ubuntu".toList, 24⟩
      baseBox := "ubuntu/24".toList
      baseBoxVersion := none
      point := none
      iso := none
      archPin := none
      requirements := []
      ibmUnsupportedSource := none
      labDefaultDecision := none }
  bakeStem := "web".toList
  mqBearing := true
  components := []

/-- The host that calls itself `arm64`. -/
def macFacts : HostFacts := ⟨"aarch64".toList, false, []⟩

def webRun : Fill := .ensure "10.0.1.0".toList [webBox] macFacts

def macRun : Fill := .fetch "10.0.1.0".toList "arm64".toList

def webTarball : Str := tarballOf "10.0.1.0".toList "UbuntuLinuxARM64".toList

def filled : World Bool := (webRun.prog.exec works cold).2

/-- Its tarball was removed, and a run to get it back was cut off. -/
def lost : World Bool := { filled with tar := Function.update filled.tar webTarball none }

def refilled : Cfg (World Bool) Cmd Ans Failure Unit := macRun.prog.execFor works 2 lost

def again : World Bool := (macRun.prog.exec works refilled.2).2

/-- A run of the script was cut off where the sidecar was just opened. -/
def opened : World Bool := ⟨fun _ => none, fun _ => none, Function.update (fun _ => none) webTarball (some [])⟩

theorem isVersion_pin : IsVersion "10.0.1.0".toList := by
  unfold IsVersion
  decide +kernel

/-! ### What comes of it -/

section
variable (flaky : Prop) (sha256 : β → Str) (cdn : Str → β)

/-- A run, cut off anywhere, or a hand in the directory. -/
inductive Move : World β → World β → Prop where
  | run {w : World β} {r : Fill} {y : Cfg (World β) Cmd Ans Failure Unit} :
      IsVersion r.version → Reach (Disk flaky sha256 cdn) (r.prog, w) y → Move w y.2
  /-- A tarball is damaged, removed or placed. -/
  | tarball {w : World β} {name : Str} {b : Option β} :
      IsTarball name → Move w { w with tar := Function.update w.tar name b }
  | part {w : World β} {part : Str → Option β} : Move w { w with part := part }

abbrev Moves : World β → World β → Prop := Relation.ReflTransGen (Move flaky sha256 cdn)

/-- A run that returns. -/
abbrev Returns (r : Fill) (w w' : World β) : Prop := Reach (Disk flaky sha256 cdn) (r.prog, w) (.ret (), w')

end

theorem returns_works {r : Fill} {w : World Bool} (h : isRet (r.prog.exec works w).1 = true) :
    Returns True stamp (fun _ => true) r w (r.prog.exec works w).2 := by
  have hreach : Reach (Disk True stamp fun _ => true) (r.prog, w) (r.prog.exec works w) :=
    reach_exec (J := fun _ => True) (fun w c _ => ⟨disk_works True w c, trivial⟩) r.prog w trivial
  have heq : r.prog.exec works w = (.ret (), (r.prog.exec works w).2) := Prod.ext (eq_of_isRet h) rfl
  rwa [heq] at hreach

theorem sound_cold : Sound sha256 (cold : World β) :=
  ⟨fun _ _ h => absurd h (by simp [cold]), fun _ h => absurd h (by simp [cold])⟩

section
variable (hhex : ∀ b, IsDigest (sha256 b))
include hhex

theorem kept_move (hs : Sound sha256 w) (h : Move flaky sha256 cdn w w') : Kept sha256 w w' := by
  cases h with
  | run hversion hrun => exact (wp_reach hrun (Kept.refl hs) (leads_fill hhex _ hversion hs)).1
  | tarball hname => exact ⟨hs.placed hname _, fun _ _ h => h⟩
  | part => exact ⟨⟨hs.lines, hs.names⟩, fun _ _ h => h⟩

theorem kept_moves (hs : Sound sha256 w) (h : Moves flaky sha256 cdn w w') : Kept sha256 w w' := by
  induction h with
  | refl => exact Kept.refl hs
  | tail _ hmove ih => exact ih.trans (kept_move hhex ih.sound hmove)

theorem done_of_returns {r : Fill} (hversion : IsVersion r.version) (hs : Sound sha256 w)
    (hrun : Returns flaky sha256 cdn r w w') : Done (Kept sha256 w) sha256 r.names w w' :=
  (wp_reach hrun (Kept.refl hs) (leads_fill hhex r hversion hs)).2

/-- **All runs that return hand out tarballs of one digest**, whatever became of the
cache between them. -/
theorem acquired_agree {r r' : Fill} (hversion : IsVersion r.version) (hversion' : IsVersion r'.version)
    {w₁ w₂ w₃ : World β} (hw : Moves flaky sha256 cdn cold w) (hrun : Returns flaky sha256 cdn r w w₁)
    (hmoves : Moves flaky sha256 cdn w₁ w₂) (hrun' : Returns flaky sha256 cdn r' w₂ w₃) :
    ∀ name ∈ r.names, name ∈ r'.names →
      ∃ b b', w₁.tar name = some b ∧ w₃.tar name = some b' ∧ sha256 b = sha256 b' := by
  intro name hname hname'
  have hdone := done_of_returns hhex hversion (kept_moves hhex sound_cold hw).sound hrun
  have hkept := kept_moves hhex hdone.inv.sound hmoves
  have hdone' := done_of_returns hhex hversion' hkept.sound hrun'
  obtain ⟨text, b, htext, hb, hexp⟩ := hdone.verified name hname
  obtain ⟨text', b', htext', hb', hexp'⟩ := hdone'.verified name hname'
  have hstays : w₃.sidecar name = some text := hdone'.inv.stays name text (hkept.stays name text htext)
  obtain rfl : text = text' := Option.some.inj (hstays.symm.trans htext')
  exact ⟨b, b', hb, hb', Option.some.inj (hexp.symm.trans hexp')⟩

end

theorem web_mac_agree :
    ∃ b b', filled.tar webTarball = some b ∧ again.tar webTarball = some b' ∧ stamp b = stamp b' := by
  have hweb : IsTarball webTarball := ⟨_, isVersion_pin, _, by decide +kernel, rfl⟩
  have hmoves : Moves True stamp (fun _ => true) filled refilled.2 :=
    (Relation.ReflTransGen.single (.tarball hweb)).tail
      (.run (r := macRun) isVersion_pin (reach_execFor (disk_works True) 2 macRun.prog lost))
  have hweb_run : Returns True stamp (fun _ => true) webRun cold filled := returns_works (by decide +kernel)
  have hmac_run : Returns True stamp (fun _ => true) macRun refilled.2 again := returns_works (by decide +kernel)
  have hversion : IsVersion webRun.version := isVersion_pin
  have hversion' : IsVersion macRun.version := isVersion_pin
  exact acquired_agree isDigest_stamp hversion hversion' .refl hweb_run hmoves hmac_run webTarball
    (by decide +kernel) (by decide +kernel)

/-! ### When it returns -/

theorem ends_value {c : Cache (Option Str)} (hc : c.Ends) : (value name c).Ends :=
  hc.bind fun r => by cases r <;> trivial

theorem ends_call {c : Cache Bool} (hc : c.Ends) : (call name c).Ends :=
  hc.bind fun ok => by cases ok <;> trivial

theorem ends_record (name : Str) : (record name).Ends :=
  (ends_value (ends_ask _)).bind fun _ => ends_call (ends_ask _)

theorem ends_verifySha256 (name : Str) : (verifySha256 name).Ends := by
  refine Ends.bind (ends_ask (Cmd.hasSidecar name)) fun has => ?_
  split
  · refine Ends.bind (ends_value (ends_ask _)) fun text => ?_
    split
    · trivial
    · refine Ends.bind (ends_value (ends_ask _)) fun actual => ?_
      split <;> trivial
  · exact ends_record name

theorem ends_ensureOne (name : Str) : (ensureOne name).Ends := by
  refine Ends.bind (ends_ask (Cmd.exists_ name)) fun there => ?_
  split
  · exact ends_verifySha256 name
  · refine Ends.bind ?_ fun _ => ends_verifySha256 name
    refine Ends.bind (Ends.bind (ends_call (ends_ask _)) fun _ => ends_call (ends_ask _)) fun _ => ?_
    refine Ends.bind (ends_ask (Cmd.hasSidecar name)) fun has => ?_
    split
    · trivial
    · exact ends_record name

theorem ends_ensureMqTarballs (version : Str) (boxes : List BoxEntry) (facts : HostFacts) :
    (ensureMqTarballs version boxes facts).Ends := by
  have hall : ∀ names : List Str, (forEach ensureOne names).Ends := by
    intro names
    induction names with
    | nil => trivial
    | cons name names ih => exact (ends_ensureOne name).bind fun _ => ih
  unfold ensureMqTarballs
  split
  · trivial
  · exact (hall _).bind fun _ => trivial

theorem exists_names {version : Str} {boxes : List BoxEntry} {facts : HostFacts}
    (h : ∀ entry ∈ boxes, ∃ name, tarballName version entry facts = .ok name) :
    ∃ names, (boxes.mapM fun entry => tarballName version entry facts) = .ok names := by
  have hex : ∀ entry, ∃ name, entry ∈ boxes → tarballName version entry facts = .ok name := by
    intro entry
    by_cases hentry : entry ∈ boxes
    · obtain ⟨name, hname⟩ := h entry hentry
      exact ⟨name, fun _ => hname⟩
    · exact ⟨[], fun h => absurd h hentry⟩
  choose g hg using hex
  exact ⟨boxes.map g, mapM_of_ok hg⟩

theorem Verified.fits (h : Verified sha256 w name) : Fits sha256 w name ((w.tar name).getD (cdn name)) := by
  obtain ⟨text, b, htext, hb, hexp⟩ := h
  intro text' htext'
  obtain rfl : text = text' := Option.some.inj (htext.symm.trans htext')
  rwa [hb, Option.getD_some]

/-- Ubuntu on the host's own arch, or RHEL on `x86_64`. -/
def Stocked (entry : BoxEntry) : Prop :=
  entry.os.ref.family = "ubuntu".toList ∧ (entry.os.archPin = none ∨ entry.os.archPin = some []) ∨
    entry.os.ref.family = "rhel".toList ∧ entry.os.archPin = some "x86_64".toList

/-- The shell takes the host for what `normalize_arch` does. -/
theorem suffixes_of_normalizeArch {machine arch : Str} {ss : List Str} (hss : suffixes machine = some ss)
    (harch : normalizeArch machine = some arch) :
    "LinuxX64".toList ∈ ss ∧ ∃ token, mqArchToken arch = some token ∧ "UbuntuLinux".toList ++ token ∈ ss := by
  have harm : ∀ machine ∈ ["aarch64".toList, "arm64".toList], normalizeArch machine = some "aarch64".toList := by
    decide +kernel
  have hx86 : ∀ machine ∈ ["x86_64".toList, "amd64".toList], normalizeArch machine = some "x86_64".toList := by
    decide +kernel
  unfold suffixes at hss
  split_ifs at hss with h h
  · obtain rfl := Option.some.inj ((harm machine h).symm.trans harch)
    obtain rfl := Option.some.inj hss
    exact ⟨by decide +kernel, "ARM64".toList, by decide +kernel, by decide +kernel⟩
  · obtain rfl := Option.some.inj ((hx86 machine h).symm.trans harch)
    obtain rfl := Option.some.inj hss
    exact ⟨by decide +kernel, "X64".toList, by decide +kernel, by decide +kernel⟩

theorem boxBuildArch_some {arch : Str} (h : arch ≠ []) (facts : HostFacts) : boxBuildArch (some arch) facts = arch := by
  cases arch with
  | nil => exact absurd rfl h
  | cons c arch => rfl

theorem tarballName_of_stocked {version machine : Str} {ss : List Str} {entry : BoxEntry} {facts : HostFacts}
    (hss : suffixes machine = some ss) (harch : normalizeArch machine = some facts.arch) (h : Stocked entry) :
    ∃ s ∈ ss, tarballName version entry facts = .ok (tarballOf version s) := by
  obtain ⟨hlinux, token, htoken, hubuntu⟩ := suffixes_of_normalizeArch hss harch
  rcases h with ⟨hfamily, hpin⟩ | ⟨hfamily, hpin⟩
  · refine ⟨_, hubuntu, ?_⟩
    have harch : boxBuildArch entry.os.archPin facts = facts.arch := by
      rcases hpin with hpin | hpin <;> rw [hpin] <;> rfl
    have hprefix : familyPrefix "ubuntu".toList = some "UbuntuLinux".toList := by decide +kernel
    rw [tarballName, hfamily, hprefix]
    simp only [harch, htoken]
  · refine ⟨_, hlinux, ?_⟩
    have hprefix : familyPrefix "rhel".toList = some "Linux".toList := by decide +kernel
    have hpinned : boxBuildArch (some "x86_64".toList) facts = "x86_64".toList :=
      boxBuildArch_some (by decide +kernel) facts
    have htoken : mqArchToken "x86_64".toList = some "X64".toList := by decide +kernel
    have hsuffix : "Linux".toList ++ "X64".toList = "LinuxX64".toList := by decide +kernel
    rw [tarballName, hfamily, hprefix, hpin, hpinned]
    simp only [htoken, hsuffix]

theorem suffixes_of_fetched {version machine : Str}
    (hrun : Reach (Disk flaky sha256 cdn) (fetchMq version machine, w) (.ret (), w')) :
    ∃ ss, suffixes machine = some ss := by
  cases h : suffixes machine with
  | some ss => exact ⟨ss, rfl⟩
  | none =>
    have hraise : fetchMq version machine = throw (.unsupportedArch machine) := by rw [fetchMq, h]
    have hwp : Leads True flaky sha256 cdn (fun _ => True) (fetchMq version machine) (fun _ _ => False) w := by
      rw [hraise]
      trivial
    exact (wp_reach hrun trivial hwp).2.elim

section
variable (hhex : ∀ b, IsDigest (sha256 b))
include hhex

/-- **A run returns where every sidecar fits**, and only there: it has the digest of
the tarball that is there, or of the one that is downloaded. -/
theorem ensure_iff {f : (w : World β) → (c : Cmd) → Ans c × World β}
    (hworks : ∀ w c, Disk False sha256 cdn w c (f w c).1 (f w c).2) (version : Str) (boxes : List BoxEntry)
    (facts : HostFacts) (w : World β) :
    (∃ names w', (ensureMqTarballs version boxes facts).exec f w = (.ret names, w')) ↔
      ∀ entry ∈ boxes, ∃ name, tarballName version entry facts = .ok name ∧
        Fits sha256 w name ((w.tar name).getD (cdn name)) := by
  constructor
  · rintro ⟨names', w', hexec⟩ entry hentry
    cases hnames : boxes.mapM fun entry => tarballName version entry facts with
    | error e =>
      have hraise : ensureMqTarballs version boxes facts = throw (.name e) := by rw [ensureMqTarballs, hnames]
      rw [hraise] at hexec
      exact absurd (congrArg Prod.fst hexec) (by simp [throw, MonadExcept.throw, exec])
    | ok names =>
      have hrun : Reach (Disk False sha256 cdn) (ensureMqTarballs version boxes facts, w) (.ret names', w') := by
        rw [← hexec]
        exact reach_exec (J := fun _ => True) (fun w c _ => ⟨hworks w c, trivial⟩) _ w trivial
      have hleads : Leads True False sha256 cdn (fun _ => True) (ensureMqTarballs version boxes facts) _ w :=
        leads_ensure hhex (fun _ _ => allows_true) trivial hnames fun _ => trivial
      obtain ⟨-, -, hfits⟩ := (wp_reach hrun trivial hleads).2
      obtain ⟨name, hname⟩ := ok_of_mapM hnames entry hentry
      exact ⟨name, hname, hfits.resolve_left id name ((mem_of_mapM hnames name).mpr ⟨entry, hentry, hname⟩)⟩
  · intro hall
    obtain ⟨names, hnames⟩ := exists_names fun entry hentry => ⟨_, (hall entry hentry).choose_spec.1⟩
    have hfits : ∀ name ∈ names, Fits sha256 w name ((w.tar name).getD (cdn name)) := by
      intro name hname
      obtain ⟨entry, hentry, heq⟩ := (mem_of_mapM hnames name).mp hname
      obtain ⟨name', heq', hfit⟩ := hall entry hentry
      obtain rfl : name = name' := Except.ok.inj (heq.symm.trans heq')
      exact hfit
    obtain ⟨ns, w', hexec, -⟩ := (ends_ensureMqTarballs version boxes facts).exec hworks w
      (leads_ensure (I := fun _ => True) hhex (fun _ _ => allows_true) trivial hnames
        fun h => h.elim id fun hno => hno hfits)
    exact ⟨ns, w', hexec⟩

omit hhex in
theorem web_ensures :
    (∃ names w', (ensureMqTarballs "10.0.1.0".toList [webBox] macFacts).exec works cold = (.ret names, w')) ∧
      ¬ ∃ names w', (ensureMqTarballs "10.0.1.0".toList [webBox] macFacts).exec works opened = (.ret names, w') := by
  have hname : tarballName "10.0.1.0".toList webBox macFacts = .ok webTarball := by decide +kernel
  refine ⟨(ensure_iff isDigest_stamp (disk_works False) _ _ _ _).mpr ?_, fun h => ?_⟩
  · intro entry hentry
    obtain rfl := List.mem_singleton.mp hentry
    exact ⟨webTarball, hname, fun text htext => by simp [cold] at htext⟩
  · obtain ⟨name, heq, hfits⟩ := (ensure_iff isDigest_stamp (disk_works False) _ _ _ _).mp h webBox List.mem_cons_self
    obtain rfl : webTarball = name := Except.ok.inj (hname.symm.trans heq)
    exact absurd (hfits [] (by simp [opened])) (by decide)

/-- **After a run of `fetchMq` nothing is left to do** for boxes of the host's own
Ubuntu and of RHEL on `x86_64`. -/
theorem fetched_suffices {f : (w : World β) → (c : Cmd) → Ans c × World β}
    (hworks : ∀ w c, Disk False sha256 cdn w c (f w c).1 (f w c).2) {version machine : Str} {boxes : List BoxEntry}
    {facts : HostFacts} (hversion : IsVersion version) (harch : normalizeArch machine = some facts.arch)
    (hboxes : ∀ entry ∈ boxes, Stocked entry) {cdn' : Str → β} (hw : Moves flaky sha256 cdn' cold w)
    (hrun : Reach (Disk flaky sha256 cdn') (fetchMq version machine, w) (.ret (), w')) :
    ∃ names, (ensureMqTarballs version boxes facts).exec f w' = (.ret names, w') := by
  have hs := (kept_moves hhex sound_cold hw).sound
  have hdone := done_of_returns hhex (r := .fetch version machine) hversion hs hrun
  obtain ⟨ss, hss⟩ := suffixes_of_fetched hrun
  have hname : ∀ entry ∈ boxes, ∃ s ∈ ss, tarballName version entry facts = .ok (tarballOf version s) :=
    fun entry hentry => tarballName_of_stocked hss harch (hboxes entry hentry)
  obtain ⟨names, hnames⟩ := exists_names fun entry hentry => ⟨_, (hname entry hentry).choose_spec.2⟩
  have hver : ∀ name ∈ names, Verified sha256 w' name := by
    intro name hmem
    obtain ⟨entry, hentry, heq⟩ := (mem_of_mapM hnames name).mp hmem
    obtain ⟨s, hs, heq'⟩ := hname entry hentry
    obtain rfl : name = tarballOf version s := Except.ok.inj (heq.symm.trans heq')
    refine hdone.verified _ ?_
    rw [Fill.names_fetch, hss, Option.getD_some]
    exact List.mem_map_of_mem hs
  obtain ⟨ns, w'', hexec, rfl, hdone', -⟩ := (ends_ensureMqTarballs version boxes facts).exec hworks w'
    (leads_ensure (I := fun _ => True) hhex (fun _ _ => allows_true) trivial hnames fun h =>
      h.elim id fun hno => hno fun name hmem => (hver name hmem).fits)
  have heq : w'' = w' := hdone'.idle fun name hmem => hver name (List.mem_dedup.mp (mem_sortedStrs.mp hmem))
  exact ⟨_, heq ▸ hexec⟩

omit hhex in
theorem mac_suffices :
    ∃ names, (ensureMqTarballs "10.0.1.0".toList [webBox] macFacts).exec works again = (.ret names, again) := by
  have hweb : IsTarball webTarball := ⟨_, isVersion_pin, _, by decide +kernel, rfl⟩
  have hled : Moves True stamp (fun _ => true) cold refilled.2 :=
    (((Relation.ReflTransGen.single (.run (r := webRun) isVersion_pin (returns_works (by decide +kernel)))).tail
      (.tarball hweb)).tail (.run (r := macRun) isVersion_pin (reach_execFor (disk_works True) 2 macRun.prog lost)))
  have harch : normalizeArch "arm64".toList = some macFacts.arch := by decide +kernel
  refine fetched_suffices isDigest_stamp (disk_works False) isVersion_pin harch ?_ hled
    (returns_works (r := macRun) (by decide +kernel))
  intro entry hentry
  obtain rfl := List.mem_singleton.mp hentry
  exact .inl ⟨rfl, .inl rfl⟩

end

end MqCache
end MqResiliency
