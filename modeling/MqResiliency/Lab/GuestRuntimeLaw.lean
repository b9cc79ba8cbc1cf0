/-
# The interpreter that is returned is the pinned build

`ensure_tarball` returns only what it has just checked. A directory that has
the interpreter of its build is all that was unpacked from the tarball of the
pin under which it was put in place (`Inv`): this holds at every moment, as the
staging directory is renamed only when it is complete. But another pin may give
the same build another digest: what is in place is not looked at again, so a
call returns the pinned build where what is in place was put there for the
pinned digest (`Call.Clear`), as it always is when the pins agree
(`sound_of_agreed`).

Key theorems: `sure_ensureTarball`, `sure_unpack`, `pinned_of_reached`,
`sound_of_agreed`.
-/
import MqResiliency.Lab.GuestRuntime

namespace MqResiliency
namespace Lab
namespace GuestRuntime

open Py Prog

/-! ### Names -/

theorem build_eq (pin : Pin) (arch : Str) :
    pin.build arch = "cpython-".toList ++ (pin.version ++ '+' :: (pin.pbsRelease ++ '-' :: arch)) := by
  have htoken : pin.token ++ '-' :: arch = pin.version ++ '+' :: (pin.pbsRelease ++ '-' :: arch) := by
    simp [RuntimePin.token]
  unfold Pin.build
  generalize "cpython-".toList = before
  rw [List.append_assoc, htoken]

theorem getLast?_arch : ∀ arch ∈ Load.hostArches, arch.getLast? = some '4' := by
  decide +kernel

theorem getLast?_build (pin : Pin) {arch : Str} (harch : arch ∈ Load.hostArches) : (pin.build arch).getLast? = some '4' := by
  have hlast := getLast?_arch arch harch
  have hne : arch ≠ [] := fun h => by simp [h] at hlast
  obtain ⟨before, hbefore⟩ : ∃ before, pin.build arch = before ++ '-' :: arch := ⟨"cpython-".toList ++ pin.token, rfl⟩
  rw [hbefore, List.getLast?_append_of_ne_nil _ (List.cons_ne_nil _ _), List.getLast?_cons_of_ne_nil hne, hlast]

theorem getLast?_staging (name : Str) : (staging name).getLast? = some 'l' := by
  simp [staging]

/-- No interpreter's directory is a staging directory. -/
theorem build_ne_staging (pin : Pin) {arch : Str} (harch : arch ∈ Load.hostArches) (name : Str) :
    pin.build arch ≠ staging name := by
  intro h
  have hlast := getLast?_build pin harch
  rw [h, getLast?_staging] at hlast
  exact absurd hlast (by decide)

theorem plus_not_mem_version (pin : Pin) : '+' ∉ pin.version := by
  intro hmem
  have hver := pin.version_ok
  unfold Load.isPyVersion at hver
  split at hver
  · rename_i a b c heq
    have hjoin : pin.version = ['.'].intercalate [a, b, c] := by rw [← heq, List.intercalate_splitOn]
    simp only [List.all_cons, List.all_nil, Bool.and_true, Bool.and_eq_true, List.all_eq_true] at hver
    have hplus : '+' ∈ a ∨ '+' ∈ b ∨ '+' ∈ c := by
      rw [hjoin] at hmem
      simpa [List.intercalate] using hmem
    rcases hplus with h | h | h
    · exact absurd (hver.1.2 '+' h) (by decide)
    · exact absurd (hver.2.1.2 '+' h) (by decide)
    · exact absurd (hver.2.2.2 '+' h) (by decide)
  · exact absurd hver (by decide)

/-- A directory's name tells the version. -/
theorem version_eq_of_build {pin pin' : Pin} {arch arch' : Str} (h : pin.build arch = pin'.build arch') :
    pin.version = pin'.version := by
  have hrest : pin.version ++ '+' :: (pin.pbsRelease ++ '-' :: arch) =
      pin'.version ++ '+' :: (pin'.pbsRelease ++ '-' :: arch') := by
    rw [build_eq, build_eq] at h
    exact List.append_cancel_left h
  have htake : ∀ (p : Pin) (rest : Str), (p.version ++ '+' :: rest).takeWhile (fun c => c ≠ '+') = p.version := by
    intro p rest
    have hpos : ∀ c ∈ p.version, decide (c ≠ '+') = true := fun c hc =>
      decide_eq_true fun he => plus_not_mem_version p (he ▸ hc)
    rw [List.takeWhile_append_of_pos hpos, List.takeWhile_cons_of_neg (by simp), List.append_nil]
  rw [← htake pin (pin.pbsRelease ++ '-' :: arch), hrest, htake pin']

theorem interpreter_eq_of_build {pin pin' : Pin} {arch arch' : Str} (h : pin.build arch = pin'.build arch') :
    pin.interpreter = pin'.interpreter := by
  unfold Pin.interpreter Pin.minor
  rw [version_eq_of_build h]

/-! ### What is in place -/

section
variable (sha256 : Str → Str) (unpacked : Str → Option Dir)

/-- The directory has the interpreter, and is all that is unpacked from a tarball with that digest. -/
def Whole (b : Binary) (digest : Str) (s : Store) : Prop :=
  ∃ d c, s.dirs.get? b.dir = some d ∧ d.get? b.path ≠ none ∧ unpacked c = some d ∧ sha256 c = digest

/-- The file has the digest that the pin states for the arch. -/
def Verified (pin : Pin) (arch name : Str) (s : Store) : Prop :=
  ∃ c, pin.sha256.get? arch = some (sha256 c) ∧ name = pin.tarball arch ∧ s.tarballs.get? name = some c

/-- A directory with the interpreter of its build is what was put in place for
its digest. -/
def Inv (s : Store) : Prop :=
  ∀ (pin : Pin) (arch : Str) (d : Dir), arch ∈ Load.hostArches → s.dirs.get? (pin.build arch) = some d →
    d.get? pin.interpreter ≠ none →
    ∃ c, s.published.get? (pin.build arch) = some (sha256 c) ∧ unpacked c = some d

variable {sha256 unpacked} {s s' : Store}

theorem inv_start (tarballs : Dict Str Str) : Inv sha256 unpacked ⟨tarballs, .empty, .empty⟩ :=
  fun _ _ _ _ hget _ => absurd hget (by simp)

/-- No interpreter was added, nor was it said otherwise what one was put in place for. -/
theorem Inv.mono (h : Inv sha256 unpacked s)
    (hd : ∀ (pin : Pin) (arch : Str) (d : Dir), arch ∈ Load.hostArches → s'.dirs.get? (pin.build arch) = some d →
      d.get? pin.interpreter ≠ none → s.dirs.get? (pin.build arch) = some d)
    (hp : s'.published = s.published) : Inv sha256 unpacked s' := fun pin arch d harch hget hfile =>
  hp ▸ h pin arch d harch (hd pin arch d harch hget hfile) hfile

theorem Inv.putFile (h : Inv sha256 unpacked s) (name : Str) (content : Option Str) :
    Inv sha256 unpacked (s.putFile name content) := h.mono (fun _ _ _ _ hget _ => hget) rfl

theorem Inv.putStaging (h : Inv sha256 unpacked s) (name : Str) (d : Dir) :
    Inv sha256 unpacked (s.putDir (staging name) d) := by
  refine h.mono (fun pin arch d' harch hget _ => ?_) rfl
  rwa [Store.putDir, Dict.get?_set, if_neg (build_ne_staging pin harch name)] at hget

/-! ### Operations -/

/-- Of a directory no more than some files are left, and all else is as it was. -/
structure Shrunk (dir : Str) (s s' : Store) : Prop where
  tarballs : s'.tarballs = s.tarballs
  published : s'.published = s.published
  others : ∀ other, other ≠ dir → s'.dirs.get? other = s.dirs.get? other
  rest : ∀ d', s'.dirs.get? dir = some d' → ∃ d, s.dirs.get? dir = some d ∧ Within d d'

theorem shrunk_dropDir (dir : Str) : Shrunk dir s (s.dropDir dir) where
  tarballs := rfl
  published := rfl
  others other hne := by rw [Store.dropDir, Dict.get?_erase, if_neg hne]
  rest d' hget := by
    rw [Store.dropDir, Dict.get?_erase, if_pos rfl] at hget
    exact absurd hget (by simp)

/-- **What `rmtree` does**, whether it works or not. -/
theorem shrunk_of_rmtree {dir : Str} {ok : Bool} (h : answers sha256 unpacked s (.rmtree dir) ok s') : Shrunk dir s s' := by
  have hcases : s' = s ∨ s' = s.dropDir dir ∨ ∃ d d', s.dirs.get? dir = some d ∧ Within d d' ∧ s' = s.putDir dir d' := by
    cases ok with
    | false => exact h
    | true => exact .inr (.inl h)
  obtain rfl | rfl | ⟨d, d', hget, hwithin, rfl⟩ := hcases
  · exact ⟨rfl, rfl, fun _ _ => rfl, fun d' hget => ⟨d', hget, fun _ _ hc => hc⟩⟩
  · exact shrunk_dropDir dir
  · refine ⟨rfl, rfl, fun other hne => by rw [Store.putDir, Dict.get?_set, if_neg hne], fun e hget' => ⟨d, hget, ?_⟩⟩
    rw [Store.putDir, Dict.get?_set, if_pos rfl] at hget'
    exact Option.some.inj hget' ▸ hwithin

theorem isFile_iff {dir path : Str} : s.isFile dir path = true ↔ ∃ d, s.dirs.get? dir = some d ∧ d.get? path ≠ none := by
  unfold Store.isFile
  cases s.dirs.get? dir <;> simp [Option.isSome_iff_ne_none]

/-- Where there was no interpreter, there is none after it. -/
theorem Shrunk.isFile {dir path : Str} (h : Shrunk dir s s') (hno : s.isFile dir path = false) :
    s'.isFile dir path = false := by
  refine Bool.eq_false_iff.mpr fun hyes => ?_
  obtain ⟨d', hget', hfile⟩ := isFile_iff.mp hyes
  obtain ⟨d, hget, hwithin⟩ := h.rest d' hget'
  obtain ⟨content, hcontent⟩ := Option.ne_none_iff_exists'.mp hfile
  have hwas : s.isFile dir path = true := isFile_iff.mpr ⟨d, hget, by simp [hwithin path content hcontent]⟩
  exact absurd hwas (by simp [hno])

theorem Inv.shrunkStaging {name : Str} (h : Inv sha256 unpacked s) (hs : Shrunk (staging name) s s') :
    Inv sha256 unpacked s' := by
  refine h.mono (fun pin arch d harch hget _ => ?_) hs.published
  rwa [hs.others _ (build_ne_staging pin harch name)] at hget

theorem Inv.shrunkBuild {pin : Pin} {arch : Str} (h : Inv sha256 unpacked s)
    (hs : Shrunk (pin.build arch) s s') (hno : s.isFile (pin.build arch) pin.interpreter = false) :
    Inv sha256 unpacked s' := by
  refine h.mono (fun pin' arch' d _ hget hfile => ?_) hs.published
  by_cases hname : pin'.build arch' = pin.build arch
  · have hyes : s'.isFile (pin.build arch) pin.interpreter = true :=
      isFile_iff.mpr ⟨d, hname ▸ hget, interpreter_eq_of_build hname ▸ hfile⟩
    exact absurd hyes (by simp [hs.isFile hno])
  · rwa [hs.others _ hname] at hget

/-- The staging directory is put in place. -/
theorem Inv.replaceDir {pin : Pin} {arch src c : Str} {d : Dir} (h : Inv sha256 unpacked s) (hc : unpacked c = some d) :
    Inv sha256 unpacked
      { (s.dropDir src).putDir (pin.build arch) d with published := s.published.set (pin.build arch) (sha256 c) } := by
  intro pin' arch' d' harch hget hfile
  simp only [Store.putDir, Store.dropDir, Dict.get?_set] at hget ⊢
  by_cases hname : pin'.build arch' = pin.build arch
  · rw [if_pos hname] at hget ⊢
    exact ⟨c, rfl, Option.some.inj hget ▸ hc⟩
  · rw [if_neg hname] at hget ⊢
    rw [Dict.get?_erase] at hget
    split at hget
    · exact absurd hget (by simp)
    · exact h pin' arch' d' harch hget hfile

end

/-! ### The calls -/

section
variable (sha256 : Str → Str) (unpacked : Str → Option Dir)

/-- However it is answered, the program keeps what holds, and returns with `Q`. -/
abbrev Sure {α : Type} (p : Play α) (Q : α → Store → Prop) (s : Store) : Prop :=
  p.wp (answers sha256 unpacked) (Inv sha256 unpacked) Q (fun _ _ => True) s

variable {sha256 unpacked} {s s' : Store}

theorem sure_must {c : Play Bool} {Q : Unit → Store → Prop} :
    Sure sha256 unpacked (must c) Q s ↔ Sure sha256 unpacked c (fun ok s' => ok = true → Q () s') s := by
  rw [Sure, must, wp_must]
  have hpost : (fun (ok : Bool) s' => if ok = true then Q () s' else True) = fun ok s' => ok = true → Q () s' := by
    funext ok s'
    cases ok <;> simp
  rw [hpost]

theorem sure_look {Q : Store → Store → Prop} (h : Inv sha256 unpacked s) (hQ : Q s s) :
    Sure sha256 unpacked (ask Cmd.look) Q s := by
  rintro a s' ⟨rfl, rfl⟩
  exact ⟨h, hQ⟩

/-- Only tarballs changed. -/
structure Beside (s s' : Store) : Prop where
  dirs : s'.dirs = s.dirs
  published : s'.published = s.published

theorem Beside.refl (s : Store) : Beside s s := ⟨rfl, rfl⟩

theorem Beside.trans {s'' : Store} (h : Beside s s') (h' : Beside s' s'') : Beside s s'' :=
  ⟨h'.dirs.trans h.dirs, h'.published.trans h.published⟩

theorem beside_putFile (s : Store) (name : Str) (content : Option Str) : Beside s (s.putFile name content) := ⟨rfl, rfl⟩

theorem Inv.beside (h : Inv sha256 unpacked s) (hs : Beside s s') : Inv sha256 unpacked s' :=
  h.mono (fun _ _ _ _ hget _ => hs.dirs ▸ hget) hs.published

/-- The download changes the tarballs alone. -/
theorem sure_download (pin : Pin) (arch : Str) (h : Inv sha256 unpacked s) :
    Sure sha256 unpacked (download pin arch) (fun _ s' => Beside s s') s := by
  refine wp_then (P := fun _ s' => Beside s s') (sure_must.mpr ?_) fun _ s₁ h₁ => ?_
  · rintro _ _ rfl
    exact ⟨h, fun _ => .refl _⟩
  refine wp_then (P := fun _ s' => Beside s s') (sure_must.mpr ?_) fun _ s₂ h₂ => sure_must.mpr ?_
  · rintro _ _ ⟨content, rfl⟩
    have hbeside := h₁.trans (beside_putFile s₁ (staging (pin.tarball arch)) content)
    exact ⟨h.beside hbeside, fun _ => hbeside⟩
  · intro ok s' hs
    have hbeside : Beside s s' := by
      cases ok with
      | false => exact hs ▸ h₂
      | true =>
        obtain ⟨c, -, rfl⟩ := hs
        exact (h₂.trans (beside_putFile _ _ _)).trans (beside_putFile _ _ _)
    exact ⟨h.beside hbeside, fun _ => hbeside⟩

/-- What the check returns has the digest. -/
theorem sure_verify (pin : Pin) {arch expected : Str} (h : Inv sha256 unpacked s)
    (hpin : pin.sha256.get? arch = some expected) :
    Sure sha256 unpacked (verify (pin.tarball arch) expected)
      (fun name s' => Beside s s' ∧ Verified sha256 pin arch name s') s := by
  refine wp_then (P := fun a s' => s' = s ∧
    (a = none ∨ ∃ c, s.tarballs.get? (pin.tarball arch) = some c ∧ a = some (sha256 c))) ?_ ?_
  · rintro a s' ⟨hs, ha⟩
    exact ⟨hs ▸ h, hs, ha⟩
  rintro a s' ⟨hs, ha⟩
  subst s'
  cases a with
  | none => trivial
  | some actual =>
    obtain ⟨c, hc, heq⟩ : ∃ c, s.tarballs.get? (pin.tarball arch) = some c ∧ some actual = some (sha256 c) := by
      simpa using ha
    obtain rfl : actual = sha256 c := Option.some.inj heq
    by_cases hexp : sha256 c = expected
    · simp only [if_pos hexp]
      exact ⟨.refl s, c, hexp ▸ hpin, rfl, hc⟩
    · simp only [if_neg hexp]
      refine wp_then (P := fun _ _ => True) (sure_must.mpr ?_) fun _ _ _ => trivial
      rintro ok s' rfl
      refine ⟨?_, fun _ => trivial⟩
      split
      · exact h.putFile _ _
      · exact h

/-- **A tarball that is returned is verified.** -/
theorem sure_ensureTarball (pin : Pin) (arch : Str) (h : Inv sha256 unpacked s) :
    Sure sha256 unpacked (ensureTarball pin arch)
      (fun name s' => Beside s s' ∧ Verified sha256 pin arch name s') s := by
  unfold ensureTarball
  split
  · trivial
  · rename_i expected hpin
    refine wp_then (P := fun a s' => a = s ∧ s' = s) (sure_look h ⟨rfl, rfl⟩) ?_
    rintro a s' ⟨ha, hs⟩
    subst a s'
    split
    · refine wp_then (sure_download pin arch h) fun _ s₁ h₁ => ?_
      exact wp_mono (fun _ _ hv => ⟨h₁.trans hv.1, hv.2⟩) (fun _ _ _ => trivial) _ _
        (sure_verify pin (h.beside h₁) hpin)
    · exact sure_verify pin h hpin

/-- The tarball is there with its digest, and no interpreter is in its place. -/
structure Ready (sha256 : Str → Str) (unpacked : Str → Option Dir) (pin : Pin) (arch c : Str) (s : Store) : Prop where
  inv : Inv sha256 unpacked s
  tarball : s.tarballs.get? (pin.tarball arch) = some c
  absent : s.isFile (pin.build arch) pin.interpreter = false

/-- **What is unpacked is whole**, wherever the unpacking stops. -/
theorem sure_unpack (pin : Pin) {arch c : Str} (harch : arch ∈ Load.hostArches)
    (hpin : pin.sha256.get? arch = some (sha256 c)) (h : Ready sha256 unpacked pin arch c s) :
    Sure sha256 unpacked (unpack pin arch (pin.tarball arch))
      (fun b s' => b = interpreterPath pin arch ∧ Whole sha256 unpacked b (sha256 c) s') s := by
  have hne := build_ne_staging pin harch (pin.build arch)
  have hready : ∀ {s s' : Store}, Ready sha256 unpacked pin arch c s → Shrunk (staging (pin.build arch)) s s' →
      Ready sha256 unpacked pin arch c s' := fun hr hs =>
    ⟨hr.inv.shrunkStaging hs, hs.tarballs ▸ hr.tarball, by
      have habsent := hr.absent
      rwa [Store.isFile, ← hs.others _ hne] at habsent⟩
  have hput : ∀ {s : Store} (d : Dir), Ready sha256 unpacked pin arch c s →
      Ready sha256 unpacked pin arch c (s.putDir (staging (pin.build arch)) d) := fun d hr =>
    ⟨hr.inv.putStaging _ d, hr.tarball, by
      have habsent := hr.absent
      rwa [Store.isFile, Store.putDir, Dict.get?_set, if_neg hne]⟩
  unfold unpack
  -- the staging directory is emptied and made
  refine wp_then (P := fun _ s' => Ready sha256 unpacked pin arch c s') ?_ fun _ s₁ h₁ => ?_
  · intro ok s' hs
    have h' := hready h (shrunk_of_rmtree hs)
    exact ⟨h'.inv, h'⟩
  refine wp_then (P := fun _ s' => Ready sha256 unpacked pin arch c s' ∧
    s'.dirs.get? (staging (pin.build arch)) = some .empty) (sure_must.mpr ?_) fun _ s₂ h₂ => ?_
  · intro ok s' hs
    cases ok with
    | false => exact ⟨hs ▸ h₁.inv, by simp⟩
    | true =>
      obtain ⟨-, rfl⟩ := hs
      have h' := hput .empty h₁
      exact ⟨h'.inv, fun _ => ⟨h', by simp [Store.putDir, Dict.get?_set]⟩⟩
  -- it is filled
  refine wp_then (P := fun _ s' => Ready sha256 unpacked pin arch c s' ∧
    ∃ d, s'.dirs.get? (staging (pin.build arch)) = some d ∧ unpacked c = some d) (sure_must.mpr ?_) fun _ s₃ h₃ => ?_
  · intro ok s' hs
    cases ok with
    | false =>
      obtain rfl | ⟨d', rfl⟩ := hs
      · exact ⟨h₂.1.inv, by simp⟩
      · exact ⟨(hput d' h₂.1).inv, by simp⟩
    | true =>
      obtain ⟨c', d, d', hc', hd, hwhole, rfl⟩ := hs
      have h' := hput d' h₂.1
      obtain rfl : c' = c := Option.some.inj (hc'.symm.trans h₂.1.tarball)
      exact ⟨h'.inv, fun _ => ⟨h', d', by simp [Store.putDir, Dict.get?_set], hwhole (Option.some.inj (hd.symm.trans h₂.2))⟩⟩
  obtain ⟨h₃, d, hd, hwhole⟩ := h₃
  refine wp_then (P := fun a s' => a = s₃ ∧ s' = s₃) (sure_look h₃.inv ⟨rfl, rfl⟩) ?_
  rintro _ _ ⟨rfl, rfl⟩
  split
  · refine wp_then (P := fun _ _ => True) (sure_must.mpr fun ok s' hs => ?_) fun _ _ _ => trivial
    exact ⟨(hready h₃ (shrunk_of_rmtree hs)).inv, fun _ => trivial⟩
  rename_i hfile
  -- its place is emptied, and it is put there
  refine wp_then (P := fun _ s' => Inv sha256 unpacked s' ∧ s'.dirs.get? (staging (pin.build arch)) = some d) ?_
    fun _ s₄ h₄ => ?_
  · intro ok s' hs
    have hshrunk := shrunk_of_rmtree hs
    have hI := h₃.inv.shrunkBuild hshrunk h₃.absent
    exact ⟨hI, hI, (hshrunk.others _ hne.symm).trans hd⟩
  refine wp_then (P := fun _ s' => Whole sha256 unpacked (interpreterPath pin arch) (sha256 c) s') (sure_must.mpr ?_)
    fun _ s₅ h₅ => ⟨rfl, h₅⟩
  intro ok s' hs
  cases ok with
  | false => exact ⟨hs ▸ h₄.1, by simp⟩
  | true =>
    obtain ⟨d', hd', -, rfl⟩ := hs
    obtain rfl : d' = d := Option.some.inj (hd'.symm.trans h₄.2)
    rw [hpin, Option.getD_some]
    refine ⟨h₄.1.replaceDir hwhole, fun _ => ⟨d', c, by simp [Store.putDir, Dict.get?_set, interpreterPath], ?_, hwhole, rfl⟩⟩
    simpa [Store.isFile, hd, Option.isSome_iff_ne_none, interpreterPath] using hfile

/-- What `ensure_interpreter` finds in place was put there for the digest that
the pin states. -/
def Current (pin : Pin) (arch : Str) (s : Store) : Prop :=
  ∀ digest, pin.sha256.get? arch = some digest → s.isFile (pin.build arch) pin.interpreter →
    s.published.get? (pin.build arch) = some digest

/-- **An interpreter that is returned is the pinned build's**, where what was in place is current. -/
theorem sure_ensureInterpreterFor (pin : Pin) (arch : Str) (h : Inv sha256 unpacked s) (hcurrent : Current pin arch s) :
    Sure sha256 unpacked (ensureInterpreterFor pin arch)
      (fun b s' => b = interpreterPath pin arch ∧ ∃ c, pin.sha256.get? arch = some (sha256 c) ∧
        Whole sha256 unpacked b (sha256 c) s') s := by
  unfold ensureInterpreterFor
  refine wp_then (sure_ensureTarball pin arch h) fun name s₁ h₁ => ?_
  obtain ⟨hbeside, c, hpin, rfl, hc⟩ := h₁
  have hI := h.beside hbeside
  have harch : arch ∈ Load.hostArches := (pin.arches arch).mp (Dict.mem_keys_of_get? hpin)
  refine wp_then (P := fun a s' => a = s₁ ∧ s' = s₁) (sure_look hI ⟨rfl, rfl⟩) ?_
  rintro a s' ⟨ha, hs⟩
  subst a s'
  split
  · rename_i hfile
    obtain ⟨d, hd, hget⟩ := isFile_iff.mp hfile
    obtain ⟨c', hpublished, hwhole⟩ := hI pin arch d harch hd hget
    have hwas : s.isFile (pin.build arch) pin.interpreter = true := by
      rw [← hfile, Store.isFile, Store.isFile, hbeside.dirs]
    have hsame : sha256 c' = sha256 c := by
      rw [hbeside.published, hcurrent _ hpin hwas] at hpublished
      exact (Option.some.inj hpublished).symm
    exact ⟨rfl, c, hpin, d, c', hd, hget, hwhole, hsame⟩
  · rename_i hfile
    have hready : Ready sha256 unpacked pin arch c s₁ := ⟨hI, hc, by simpa using hfile⟩
    exact wp_mono (fun _ _ hb => ⟨hb.1, c, hpin, hb.2⟩) (fun _ _ _ => trivial) _ _ (sure_unpack pin harch hpin hready)

end

/-! ### Runs -/

/-- A call; `machine` is the host's. -/
inductive Call : Type where
  | ensureTarball (pin : Pin) (arch : Str)
  | ensureInterpreter (pin : Pin) (arch : Option Str) (machine : Str)

abbrev Call.Result : Call → Type
  | .ensureTarball .. => Str
  | .ensureInterpreter .. => Binary

def Call.run : (c : Call) → Play c.Result
  | .ensureTarball pin arch => GuestRuntime.ensureTarball pin arch
  | .ensureInterpreter pin arch machine => GuestRuntime.ensureInterpreter pin arch machine

/-- An interpreter in the call's place was put there for the call's digest. -/
def Call.Clear (s : Store) : Call → Prop
  | .ensureTarball .. => True
  | .ensureInterpreter pin arch machine => ∀ a, archOf arch machine = some a → Current pin a s

section
variable (sha256 : Str → Str) (unpacked : Str → Option Dir) (clear : Store → Call → Prop)

/-- What calls come to, one after the other, each cut off anywhere, where every
call starts as `clear` says. At first nothing is unpacked. -/
inductive Reached : Store → Prop
  | start (tarballs : Dict Str Str) : Reached ⟨tarballs, .empty, .empty⟩
  | call {s s' : Store} {c : Call} {p : Play c.Result} :
    Reached s → clear s c → Reach (answers sha256 unpacked) (c.run, s) (p, s') → Reached s'

/-- What a call returns has the digest that its pin states. -/
def Call.Pinned : (c : Call) → c.Result → Store → Prop
  | .ensureTarball pin arch, name, s => Verified sha256 pin arch name s
  | .ensureInterpreter pin arch machine, b, s => ∃ a c, archOf arch machine = some a ∧ b = interpreterPath pin a ∧
    pin.sha256.get? a = some (sha256 c) ∧ Whole sha256 unpacked b (sha256 c) s

/-- Whatever is returned is pinned; a tarball is, whatever is in place. -/
structure Sound (s : Store) : Prop where
  returned : ∀ (c : Call) r s', clear s c → Reach (answers sha256 unpacked) (c.run, s) (.ret r, s') →
    c.Pinned sha256 unpacked r s'
  tarball : ∀ (pin : Pin) arch name s', Reach (answers sha256 unpacked) (ensureTarball pin arch, s) (.ret name, s') →
    Verified sha256 pin arch name s'

variable {sha256 unpacked}

/-- Every call keeps what holds, wherever it is cut off, and returns what is pinned. -/
theorem sure_run (c : Call) {s : Store} (h : Inv sha256 unpacked s) (hclear : c.Clear s) :
    Sure sha256 unpacked c.run (fun r s' => c.Pinned sha256 unpacked r s') s := by
  cases c with
  | ensureTarball pin arch =>
    exact wp_mono (fun _ _ hv => hv.2) (fun _ _ _ => trivial) _ _ (sure_ensureTarball pin arch h)
  | ensureInterpreter pin arch machine =>
    show Sure sha256 unpacked (ensureInterpreter pin arch machine) _ s
    unfold ensureInterpreter
    split
    · trivial
    · rename_i a ha
      exact wp_mono (fun _ _ hb => ⟨a, hb.2.choose, ha, hb.1, hb.2.choose_spec⟩) (fun _ _ _ => trivial) _ _
        (sure_ensureInterpreterFor pin a h (hclear a ha))

theorem inv_of_reached {s : Store} (h : Reached sha256 unpacked (fun s c => c.Clear s) s) : Inv sha256 unpacked s := by
  induction h with
  | start tarballs => exact inv_start tarballs
  | call _ hclear hreach ih => exact (wp_reach hreach ih (sure_run _ ih hclear)).1

/-- **What is returned is the pinned build**, in every run in which what is in
place of an interpreter that is asked for was put there for the digest its pin
states. -/
theorem pinned_of_reached {s : Store} (h : Reached sha256 unpacked (fun s c => c.Clear s) s) :
    Sound sha256 unpacked (fun s c => c.Clear s) s where
  returned c _ _ hclear hreach := (wp_reach hreach (inv_of_reached h) (sure_run c (inv_of_reached h) hclear)).2
  tarball pin arch _ _ hreach :=
    ((wp_reach hreach (inv_of_reached h) (sure_ensureTarball pin arch (inv_of_reached h))).2).2

/-! ### Pins that agree -/

/-- The call's pin states that digest for its build. -/
def Call.States (stated : Str → Str) : Call → Prop
  | .ensureTarball .. => True
  | .ensureInterpreter pin arch machine => ∀ a digest, archOf arch machine = some a →
    pin.sha256.get? a = some digest → digest = stated (pin.build a)

/-- What is put in place is put there for the digest that is stated of it. -/
def Puts (stated : Str → Str) : Cmd → Prop
  | .replaceDir _ dst digest => digest = stated dst
  | _ => True

variable {stated : Str → Str}

theorem issues_must {p : Play Bool} (hp : p.Issues (Puts stated)) : (must p).Issues (Puts stated) :=
  issues_bind hp fun ok => by cases ok <;> trivial

theorem issues_ensureTarball (pin : Pin) (arch : Str) : (ensureTarball pin arch).Issues (Puts stated) := by
  have hverify : ∀ name expected, (verify name expected).Issues (Puts stated) := by
    refine fun name expected => issues_bind (issues_ask trivial) fun a => ?_
    cases a with
    | none => trivial
    | some actual =>
      simp only
      split
      · trivial
      · exact issues_bind (issues_must (issues_ask trivial)) fun _ => trivial
  have hdownload : (download pin arch).Issues (Puts stated) :=
    issues_bind (issues_must (issues_ask trivial)) fun _ =>
      issues_bind (issues_must (issues_ask trivial)) fun _ => issues_must (issues_ask trivial)
  unfold ensureTarball
  split
  · trivial
  · refine issues_bind (issues_ask trivial) fun s => ?_
    split
    · exact issues_bind hdownload fun _ => hverify _ _
    · exact hverify _ _

theorem issues_ensureInterpreterFor {pin : Pin} {arch : Str}
    (hstated : ∀ digest, pin.sha256.get? arch = some digest → digest = stated (pin.build arch)) :
    (ensureInterpreterFor pin arch).Issues (Puts stated) := by
  unfold ensureInterpreterFor
  cases hpin : pin.sha256.get? arch with
  | none =>
    -- no tarball is returned
    have hraise : ensureTarball pin arch = throw (.noBuild arch (sortedStrs pin.sha256.keys)) := by
      rw [ensureTarball, hpin]
    rw [hraise]
    trivial
  | some digest =>
    refine issues_bind (issues_ensureTarball pin arch) fun tarball => issues_bind (issues_ask trivial) fun s => ?_
    split
    · trivial
    unfold unpack
    refine issues_bind (issues_ask trivial) fun _ => issues_bind (issues_must (issues_ask trivial)) fun _ =>
      issues_bind (issues_must (issues_ask trivial)) fun _ => issues_bind (issues_ask trivial) fun s => ?_
    split
    · exact issues_bind (issues_must (issues_ask trivial)) fun _ => trivial
    · refine issues_bind (issues_ask trivial) fun _ => issues_bind (issues_must (issues_ask ?_)) fun _ => trivial
      simpa [Puts, hpin] using hstated digest hpin

theorem issues_run {c : Call} (hc : c.States stated) : c.run.Issues (Puts stated) := by
  cases c with
  | ensureTarball pin arch => exact issues_ensureTarball pin arch
  | ensureInterpreter pin arch machine =>
    show (ensureInterpreter pin arch machine).Issues (Puts stated)
    unfold ensureInterpreter
    split
    · trivial
    · rename_i a ha
      exact issues_ensureInterpreterFor fun digest => hc a digest ha

/-- All that is in place was put there for what is stated of it. -/
def AsStated (stated : Str → Str) (s : Store) : Prop :=
  ∀ dir digest, s.published.get? dir = some digest → digest = stated dir

theorem asStated_step {s s' : Store} {c : Cmd} {a : Ans c} (hc : Puts stated c) (h : AsStated stated s)
    (hs : answers sha256 unpacked s c a s') : AsStated stated s' := by
  have hsame : ∀ {s s' : Store}, s'.published = s.published → AsStated stated s → AsStated stated s' :=
    fun hp h dir digest hget => h dir digest (hp ▸ hget)
  cases c with
  | look => exact hs.2 ▸ h
  | makeParents => exact hs ▸ h
  | fetch url name =>
    obtain ⟨content, rfl⟩ := hs
    exact hsame rfl h
  | replaceFile src dst =>
    cases a with
    | false => exact hs ▸ h
    | true =>
      obtain ⟨content, -, rfl⟩ := hs
      exact hsame rfl h
  | digest name => exact hs.1 ▸ h
  | unlink name =>
    refine hsame ?_ h
    rw [show s' = _ from hs]
    split <;> rfl
  | rmtree dir => exact hsame (shrunk_of_rmtree hs).published h
  | mkdir dir =>
    cases a with
    | false => exact hs ▸ h
    | true =>
      obtain ⟨-, rfl⟩ := hs
      exact hsame rfl h
  | extractall tarball dir =>
    cases a with
    | false =>
      obtain rfl | ⟨d', rfl⟩ := hs
      · exact h
      · exact hsame rfl h
    | true =>
      obtain ⟨_, _, _, -, -, -, rfl⟩ := hs
      exact hsame rfl h
  | replaceDir src dst digest =>
    cases a with
    | false => exact hs ▸ h
    | true =>
      obtain ⟨d, -, -, rfl⟩ := hs
      intro dir digest' hget
      simp only [Dict.get?_set] at hget
      split at hget
      · rename_i hdir
        rw [hdir, ← Option.some.inj hget]
        exact hc
      · exact h dir digest' hget

/-- Where the pins agree, what is in place is current. -/
theorem clear_of_states {s : Store} {c : Call} (h : Inv sha256 unpacked s) (hs : AsStated stated s)
    (hc : c.States stated) : c.Clear s := by
  cases c with
  | ensureTarball pin arch => trivial
  | ensureInterpreter pin arch machine =>
    intro a ha digest hdigest hfile
    obtain ⟨d, hd, hget⟩ := isFile_iff.mp hfile
    have harch : a ∈ Load.hostArches := (pin.arches a).mp (Dict.mem_keys_of_get? hdigest)
    obtain ⟨c, hpublished, -⟩ := h pin a d harch hd hget
    rw [hpublished, hs _ _ hpublished, hc a digest ha hdigest]

/-- **Where all pins state one digest for each build**, whatever is returned is the pinned build. -/
theorem sound_of_agreed {s : Store} (h : Reached sha256 unpacked (fun _ c => c.States stated) s) :
    Sound sha256 unpacked (fun _ c => c.States stated) s := by
  obtain ⟨hreached, hs⟩ : Reached sha256 unpacked (fun s c => c.Clear s) s ∧ AsStated stated s := by
    induction h with
    | start tarballs => exact ⟨.start tarballs, fun _ _ hget => absurd hget (by simp)⟩
    | call _ hc hreach ih =>
      obtain ⟨hreached, hs⟩ := ih
      refine ⟨.call hreached (clear_of_states (inv_of_reached hreached) hs hc) hreach, ?_⟩
      exact (wp_reach hreach hs (wp_of_issues (I := AsStated stated)
        (fun _ _ _ _ hputs h hstep => ⟨asStated_step hputs h hstep, asStated_step hputs h hstep⟩) (issues_run hc) _ hs)).1
  have hsound := pinned_of_reached hreached
  exact ⟨fun c r s' hc => hsound.returned c r s' (clear_of_states (inv_of_reached hreached) hs hc), hsound.tarball⟩

end

/-! ### A corrected digest -/

def bytes (codes : List ℕ) : Str := codes.map Char.ofNat

/-- A tarball of `python/bin/python3.14` with the content `a`. -/
def tarballA : Str := bytes [31, 139, 8, 0, 0, 0, 0, 0, 2, 3, 43, 168, 44, 201, 200, 207, 211, 79, 202, 204, 211, 47, 0, 51,
  141, 245, 12, 77, 24, 168, 11, 12, 128, 192, 220, 212, 20, 76, 3, 1, 58, 13, 4, 134, 72, 108, 160, 184, 161, 161, 153,
  129, 17, 131, 130, 1, 3, 29, 64, 105, 113, 73, 98, 17, 208, 122, 134, 145, 9, 18, 25, 70, 193, 40, 24, 5, 163, 96, 20,
  140, 68, 0, 0, 24, 102, 13, 213, 0, 8, 0, 0]

/-- With the content `b`. -/
def tarballB : Str := bytes [31, 139, 8, 0, 0, 0, 0, 0, 2, 3, 43, 168, 44, 201, 200, 207, 211, 79, 202, 204, 211, 47, 0, 51,
  141, 245, 12, 77, 24, 168, 11, 12, 128, 192, 220, 212, 20, 76, 3, 1, 58, 13, 4, 134, 72, 108, 160, 184, 161, 161, 153,
  129, 17, 131, 130, 1, 3, 29, 64, 105, 113, 73, 98, 17, 208, 122, 134, 145, 9, 146, 24, 70, 193, 40, 24, 5, 163, 96, 20,
  140, 68, 0, 0, 216, 39, 117, 80, 0, 8, 0, 0]

def digestA : Str := "ba27f054de366c04174494a1325b26fb1dd6ae48fa1c2031896e1752f924f73f".toList

def digestB : Str := "326245e9da2f2654fdb7d203c5c00c6c2edef62f57662034a5cd6e27884b478c".toList

def unpackedAs (content : String) : Dir := Dict.ofList [("python/bin/python3.14".toList, content.toList)]

/-- The hashes of these two, and what they unpack to. -/
def knownHash (c : Str) : Str := if c = tarballA then digestA else if c = tarballB then digestB else []

def knownTar (c : Str) : Option Dir :=
  if c = tarballA then some (unpackedAs "a") else if c = tarballB then some (unpackedAs "b") else none

/-- The pin of 3.14.8+20261003 with that digest for each arch. -/
def pinOf (digest : Str) : Pin where
  version := "3.14.8".toList
  pbsRelease := "20261003".toList
  sha256 := Load.hostArches.foldl (fun d arch => d.set arch digest) .empty
  version_ok := by decide +kernel
  release_ok := by decide +kernel
  arches arch := by
    have hempty : (Dict.empty : Dict Str Str).keys = [] := rfl
    simp [Load.hostArches, hempty, or_comm]

def interpreterCall (digest : Str) : Call := .ensureInterpreter (pinOf digest) (some "x86_64".toList) "x86_64".toList

/-- A download of `blob`, and operations that work. -/
def serving (blob : Str) : (s : Store) → (c : Cmd) → Ans c × Store
  | s, .look => (s, s)
  | s, .makeParents => (true, s)
  | s, .fetch _ name => (true, s.putFile name (some blob))
  | s, .replaceFile src dst => match s.tarballs.get? src with
    | none => (false, s)
    | some c => (true, (s.putFile src none).putFile dst (some c))
  | s, .digest name => ((s.tarballs.get? name).map knownHash, s)
  | s, .unlink name => (true, s.putFile name none)
  | s, .rmtree dir => (true, s.dropDir dir)
  | s, .mkdir dir => if s.dirs.get? dir = none then (true, s.putDir dir .empty) else (false, s)
  | s, .extractall tarball dir =>
    match s.dirs.get? dir, (s.tarballs.get? tarball).bind knownTar with
    | some _, some d => (true, s.putDir dir d)
    | _, _ => (false, s)
  | s, .replaceDir src dst digest =>
    match s.dirs.get? src, s.dirs.get? dst with
    | some d, none => (true, { (s.dropDir src).putDir dst d with published := s.published.set dst digest })
    | _, _ => (false, s)

theorem answers_serving (blob : Str) (s : Store) (c : Cmd) :
    answers knownHash knownTar s c (serving blob s c).1 (serving blob s c).2 := by
  cases c with
  | look => exact ⟨rfl, rfl⟩
  | makeParents => rfl
  | fetch url name => exact ⟨some blob, rfl⟩
  | replaceFile src dst =>
    cases h : s.tarballs.get? src <;> simp [serving, answers, h]
  | digest name =>
    cases h : s.tarballs.get? name <;> simp [serving, answers, h]
  | unlink name => rfl
  | rmtree dir => rfl
  | mkdir dir =>
    by_cases h : s.dirs.get? dir = none <;> simp [serving, answers, h]
  | extractall tarball dir =>
    cases hd : s.dirs.get? dir with
    | none => simp [serving, answers, hd]
    | some d =>
      cases hc : s.tarballs.get? tarball with
      | none => simp [serving, answers, hd, hc]
      | some c =>
        cases hu : knownTar c with
        | none => simp [serving, answers, hd, hc, hu]
        | some d' =>
          have hserved : serving blob s (.extractall tarball dir) = (true, s.putDir dir d') := by
            simp [serving, hd, hc, hu]
          rw [hserved]
          exact ⟨c, d, d', hc, hd, fun _ => hu, rfl⟩
  | replaceDir src dst digest =>
    cases hd : s.dirs.get? src with
    | none => simp [serving, answers, hd]
    | some d =>
      cases he : s.dirs.get? dst <;> simp [serving, answers, hd, he]

theorem reach_serving {c : Call} (blob : Str) (s : Store) :
    Reach (answers knownHash knownTar) (c.run, s) (c.run.exec (serving blob) s) :=
  reach_exec (J := fun _ => True) (fun s c _ => ⟨answers_serving blob s c, trivial⟩) c.run s trivial

/-- What a first call leaves, that is served the tarball that the pin had at first. -/
def unpackedA : Store := ((interpreterCall digestA).run.exec (serving tarballA) ⟨.empty, .empty, .empty⟩).2

/-- What a call leaves for the corrected pin: the old tarball is removed. -/
def removedA : Store := ((interpreterCall digestB).run.exec (serving tarballB) unpackedA).2

/-- What a program that is over returns. -/
def returned {α : Type} : Play α → Option α
  | .ret a => some a
  | _ => none

theorem eq_ret_of_returned {α : Type} {a : α} : ∀ {p : Play α}, returned p = some a → p = .ret a
  | .ret _, h => congrArg _ (Option.some.inj h)

/-- A call that is served and returns. -/
theorem reach_ret {c : Call} {blob : Str} {s : Store} {r : c.Result}
    (h : returned (c.run.exec (serving blob) s).1 = some r) :
    Reach (answers knownHash knownTar) (c.run, s) (.ret r, (c.run.exec (serving blob) s).2) :=
  eq_ret_of_returned h ▸ reach_serving blob s

theorem clear_start (c : Call) (tarballs : Dict Str Str) : c.Clear ⟨tarballs, .empty, .empty⟩ := by
  cases c with
  | ensureTarball pin arch => trivial
  | ensureInterpreter pin arch machine => exact fun a _ digest _ hfile => absurd hfile (by simp [Store.isFile])

theorem reused_pinned : ∃ b s', Reach (answers knownHash knownTar) ((interpreterCall digestA).run, unpackedA) (.ret b, s') ∧
    (interpreterCall digestA).Pinned knownHash knownTar b s' := by
  have hreached : Reached knownHash knownTar (fun s c => c.Clear s) unpackedA :=
    .call (c := interpreterCall digestA) (.start .empty) (clear_start _ _) (reach_serving tarballA _)
  have hclear : (interpreterCall digestA).Clear unpackedA := by
    intro a ha digest hdigest _
    obtain rfl : "x86_64".toList = a := Option.some.inj ha
    have hpublished : unpackedA.published.get? ((pinOf digestA).build "x86_64".toList) =
        (pinOf digestA).sha256.get? "x86_64".toList := by decide +kernel
    exact hpublished.trans hdigest
  have hret : returned ((ensureInterpreter (pinOf digestA) (some "x86_64".toList) "x86_64".toList).exec
      (serving tarballA) unpackedA).1 = some (interpreterPath (pinOf digestA) "x86_64".toList) := by decide +kernel
  have hreach := reach_ret (c := interpreterCall digestA) hret
  exact ⟨_, _, hreach, (pinned_of_reached hreached).returned _ _ _ hclear hreach⟩

/-- The interpreter of the first tarball is returned for a pin that states the
digest of the second. -/
theorem stale_interpreter : ¬ ∀ s, Reached knownHash knownTar (fun _ _ => True) s →
    Sound knownHash knownTar (fun _ _ => True) s := by
  intro h
  have hremoved : Reached knownHash knownTar (fun _ _ => True) removedA :=
    .call (c := interpreterCall digestB) (.call (c := interpreterCall digestA) (.start .empty) trivial
      (reach_serving tarballA _)) trivial (reach_serving tarballB _)
  have hret : returned ((ensureInterpreter (pinOf digestB) (some "x86_64".toList) "x86_64".toList).exec
      (serving tarballB) removedA).1 = some (interpreterPath (pinOf digestB) "x86_64".toList) := by decide +kernel
  have hreach := reach_ret (c := interpreterCall digestB) hret
  obtain ⟨a, c, ha, -, hdigest, d, c', hd, -, hwhole, hc'⟩ := (h removedA hremoved).returned _ _ _ trivial hreach
  obtain rfl : "x86_64".toList = a := Option.some.inj ha
  have hstated : (pinOf digestB).sha256.get? "x86_64".toList = some digestB := by decide +kernel
  have hdir : (((ensureInterpreter (pinOf digestB) (some "x86_64".toList) "x86_64".toList).exec (serving tarballB)
      removedA).2).dirs.get? ((pinOf digestB).build "x86_64".toList) = some (unpackedAs "a") := by decide +kernel
  obtain rfl : unpackedAs "a" = d := Option.some.inj (hdir.symm.trans hd)
  have hknown : knownHash c' = digestB := hc'.trans (Option.some.inj (hdigest.symm.trans hstated))
  -- no tarball with the second digest unpacks to what the first did
  have hAB : digestA ≠ digestB := by decide +kernel
  have hne : unpackedAs "b" ≠ unpackedAs "a" := by decide +kernel
  have hnil : ([] : Str) ≠ digestB := by decide +kernel
  unfold knownTar at hwhole
  unfold knownHash at hknown
  split at hwhole
  · rename_i hc
    rw [if_pos hc] at hknown
    exact hAB hknown
  · rename_i hc
    rw [if_neg hc] at hknown
    split at hwhole
    · exact hne (Option.some.inj hwhole)
    · rename_i hc
      rw [if_neg hc] at hknown
      exact hnil hknown

end GuestRuntime
end Lab
end MqResiliency
