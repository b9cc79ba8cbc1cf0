/-
# What a run does to a tarball

A sidecar that a run left stays as it is (`Kept`). A run that returns leaves a
name with a sidecar that has the digest of what is there, and does nothing where
it found it so (`Done`, `leads_ensureOne`, `leads_fetchOne`); one name after the
other (`leads_forEach`).
-/
import MqResiliency.Lab.MqCacheDisk
import MqResiliency.Lib.Trace

namespace MqResiliency
namespace MqCache

open Py Lab Prog

variable {β : Type}

/-! ### What is kept -/

section
variable (sha256 : β → Str)

/-- Every sidecar is a line for its tarball, or was torn in writing one; nothing but
tarballs is there. -/
structure Sound (w : World β) : Prop where
  lines : ∀ name text, w.sidecar name = some text → ∃ b, text <+: sidecarLine (sha256 b) name
  names : ∀ name, (w.tar name).isSome → IsTarball name

/-- What a run keeps, from `w₀` on: a sidecar that is there stays. -/
structure Kept (w₀ w : World β) : Prop where
  sound : Sound sha256 w
  stays : ∀ name text, w₀.sidecar name = some text → w.sidecar name = some text

/-- What the programs do with the one name keeps `I`. -/
structure Allows (I : World β → Prop) (name : Str) : Prop where
  part : ∀ w part, I w → I { w with part := part }
  moved : ∀ w b part, I w → I { w with tar := Function.update w.tar name (some b), part := part }
  recorded : ∀ w b text, I w → w.sidecar name = none → text <+: sidecarLine (sha256 b) name → I (w.written name text)

/-- The sidecar, where there is one, has the digest of `b`. -/
def Fits (w : World β) (name : Str) (b : β) : Prop :=
  ∀ text, w.sidecar name = some text → expected text = some (sha256 b)

/-- The sidecar has the digest of what is there. -/
def Verified (w : World β) (name : Str) : Prop :=
  ∃ text b, w.sidecar name = some text ∧ w.tar name = some b ∧ expected text = some (sha256 b)

end

variable {flaky bad : Prop} {sha256 : β → Str} {cdn : Str → β} {I : World β → Prop} {w w' w₀ : World β} {name : Str}

theorem Kept.refl (h : Sound sha256 w) : Kept sha256 w w := ⟨h, fun _ _ h => h⟩

theorem Kept.trans (h : Kept sha256 w₀ w) (h' : Kept sha256 w w') : Kept sha256 w₀ w' :=
  ⟨h'.sound, fun name text ht => h'.stays name text (h.stays name text ht)⟩

/-- Any tarball may take the place of one. -/
theorem Sound.placed (h : Sound sha256 w) (hname : IsTarball name) (b : Option β) :
    Sound sha256 { w with tar := Function.update w.tar name b } where
  lines := h.lines
  names other hother := by
    by_cases heq : other = name
    · exact heq ▸ hname
    · exact h.names other (by simpa [heq] using hother)

/-- A sidecar is written where there is none. -/
theorem allows_kept (hname : IsTarball name) : Allows sha256 (Kept sha256 w₀) name where
  part w part h := ⟨⟨h.sound.lines, h.sound.names⟩, h.stays⟩
  moved w b part h :=
    have hplaced := h.sound.placed hname (some b)
    ⟨⟨hplaced.lines, hplaced.names⟩, h.stays⟩
  recorded w b text h hno htext := by
    refine ⟨⟨fun other text' hother => ?_, h.sound.names⟩, fun other text' hother => ?_⟩
    · by_cases heq : other = name
      · subst heq
        obtain rfl : text = text' := by simpa using hother
        exact ⟨b, htext⟩
      · exact h.sound.lines other text' (by simpa [heq] using hother)
    · have hstays := h.stays other text' hother
      have hne : other ≠ name := fun heq => absurd (hno.symm.trans (heq ▸ hstays)) (by simp)
      simpa [hne] using hstays

theorem allows_true : Allows sha256 (fun _ => True) name :=
  ⟨fun _ _ _ => trivial, fun _ _ _ _ => trivial, fun _ _ _ _ _ _ => trivial⟩

/-! ### Rules for calls -/

/-- The program comes to `Q`, or the outcome is `bad`. -/
abbrev Leads {α : Type} (bad flaky : Prop) (sha256 : β → Str) (cdn : Str → β) (I : World β → Prop) (p : Cache α)
    (Q : α → World β → Prop) (w : World β) : Prop :=
  p.wp (Disk flaky sha256 cdn) I Q (fun _ _ => bad) w

theorem leads_bind {α γ : Type} {p : Cache α} {f : α → Cache γ} {Q : γ → World β → Prop}
    (h : Leads bad flaky sha256 cdn I p (fun a w' => Leads bad flaky sha256 cdn I (f a) Q w') w) :
    Leads bad flaky sha256 cdn I (p >>= f) Q w :=
  (wp_bind p f Q _ w).mpr h

theorem leads_call {c : Cache Bool} {Q : Unit → World β → Prop}
    (h : Leads bad flaky sha256 cdn I c (fun ok w' => (ok = true → Q () w') ∧ (ok = true ∨ bad)) w) :
    Leads bad flaky sha256 cdn I (call name c) Q w := by
  refine (wp_must _ _ _ _ _).mpr (wp_post h fun ok w' hok => ?_)
  split
  · exact hok.1 ‹_›
  · exact hok.2.resolve_left ‹_›

theorem leads_value {c : Cache (Option Str)} {Q : Str → World β → Prop}
    (h : Leads bad flaky sha256 cdn I c (fun r w' => (∀ s, r = some s → Q s w') ∧ (r = none → bad)) w) :
    Leads bad flaky sha256 cdn I (value name c) Q w := by
  unfold value
  rw [Leads, wp_bind]
  refine wp_post h fun r w' hr => ?_
  cases r with
  | none => exact hr.2 rfl
  | some s => exact hr.1 s rfl

theorem leads_digest {Q : Str → World β → Prop} (hI : I w) (hQ : ∀ b, w.tar name = some b → Q (sha256 b) w)
    (hbad : w.tar name = none ∨ flaky → bad) : Leads bad flaky sha256 cdn I (digest name) Q w := by
  refine leads_value fun r w' hs => ?_
  cases hs with
  | digest hb => exact ⟨hI, fun s hs => Option.some.inj hs ▸ hQ _ hb, fun h => absurd h (by simp)⟩
  | noDigest hf => exact ⟨hI, fun _ h => absurd h (by simp), fun _ => hbad hf⟩

theorem leads_exists {Q : Bool → World β → Prop} (hI : I w) (hQ : Q (w.tar name).isSome w) :
    Leads bad flaky sha256 cdn I (ask (Cmd.exists_ name)) Q w := by
  intro r w' hs
  cases hs with
  | exists_ => exact ⟨hI, hQ⟩

theorem leads_hasSidecar {Q : Bool → World β → Prop} (hI : I w) (hQ : Q (w.sidecar name).isSome w) :
    Leads bad flaky sha256 cdn I (ask (Cmd.hasSidecar name)) Q w := by
  intro r w' hs
  cases hs with
  | hasSidecar => exact ⟨hI, hQ⟩

/-- A sidecar that may be written is, or was torn. -/
theorem leads_write {text : Str} {Q : Unit → World β → Prop}
    (hI : ∀ torn, torn <+: text → I (w.written name torn)) (hI₀ : I w)
    (hQ : Q () (w.written name text)) (hbad : flaky → bad) :
    Leads bad flaky sha256 cdn I (call name (ask (Cmd.writeSidecar name text))) Q w := by
  refine leads_call fun ok w' hs => ?_
  cases hs with
  | writeSidecar => exact ⟨hI text (List.prefix_refl text), fun _ => hQ, .inl rfl⟩
  | tornSidecar hf htorn => exact ⟨hI _ htorn, fun h => absurd h (by simp), .inr (hbad hf)⟩
  | noSidecar hf => exact ⟨hI₀, fun h => absurd h (by simp), .inr (hbad hf)⟩

/-- A download takes its place. -/
theorem leads_acquire (hA : Allows sha256 I name) (hI : I w) (hbad : flaky → bad) :
    Leads bad flaky sha256 cdn I (acquire name)
      (fun _ w' => I w' ∧ ∃ b, (b = cdn name ∨ flaky) ∧ w'.tar = Function.update w.tar name (some b) ∧
        w'.sidecar = w.sidecar) w := by
  unfold acquire
  refine leads_bind (leads_call fun ok w' hs => ?_)
  cases hs with
  | @download _ _ _ b hb =>
    have hI' := hA.part w (Function.update w.part name (some b)) hI
    refine ⟨hI', fun _ => leads_call fun ok w'' hs' => ?_, .inl rfl⟩
    cases hs' with
    | @rename _ _ b' hpart =>
      obtain rfl : b = b' := by simpa using hpart
      have hI'' := hA.moved _ b (Function.update (Function.update w.part name (some b)) name none) hI'
      exact ⟨hI'', fun _ => ⟨hI'', b, hb, rfl, rfl⟩, .inl rfl⟩
    | noRename hno =>
      refine ⟨hI', fun h => absurd h (by simp), .inr (hbad (hno.resolve_left ?_))⟩
      simp
  | noDownload hf => exact ⟨hA.part w _ hI, fun h => absurd h (by simp), .inr (hbad hf)⟩

/-! ### What a run does -/

/-- Nothing but these tarballs and their sidecars changed. -/
def Frame (names : List Str) (w w' : World β) : Prop :=
  ∀ other, other ∉ names → w'.tar other = w.tar other ∧ w'.sidecar other = w.sidecar other

theorem Frame.trans {names : List Str} {w'' : World β} (h : Frame names w w') (h' : Frame names w' w'') :
    Frame names w w'' :=
  fun other hother => ⟨(h' other hother).1.trans (h other hother).1, (h' other hother).2.trans (h other hother).2⟩

theorem frame_write (w : World β) (name text : Str) :
    Frame [name] w (w.written name text) :=
  fun _ hother => ⟨rfl, Function.update_of_ne (by simpa using hother) _ _⟩

/-- What a run that returns has done for some names; nothing, where all was done. -/
structure Done (I : World β → Prop) (sha256 : β → Str) (names : List Str) (w w' : World β) : Prop where
  inv : I w'
  frame : Frame names w w'
  verified : ∀ name ∈ names, Verified sha256 w' name
  idle : (∀ name ∈ names, Verified sha256 w name) → w' = w

theorem verified_congr (ht : w'.tar name = w.tar name) (hs : w'.sidecar name = w.sidecar name) :
    Verified sha256 w' name ↔ Verified sha256 w name := by
  rw [Verified, Verified, ht, hs]

theorem Done.one (hI : I w') (hframe : Frame [name] w w') (hver : Verified sha256 w' name)
    (hidle : Verified sha256 w name → w' = w) : Done I sha256 [name] w w' :=
  ⟨hI, hframe, fun _ hm => List.mem_singleton.mp hm ▸ hver, fun hall => hidle (hall name List.mem_cons_self)⟩

/-- What is done after something else was. -/
theorem Done.after {w₁ : World β} (h : Done I sha256 [name] w₁ w') (hframe : Frame [name] w w₁)
    (hnot : ¬ Verified sha256 w name) : Done I sha256 [name] w w' :=
  .one h.inv (hframe.trans h.frame) (h.verified name List.mem_cons_self) fun hver => absurd hver hnot

theorem Done.nil (hI : I w) : Done I sha256 [] w w := ⟨hI, fun _ _ => ⟨rfl, rfl⟩, by simp, fun _ => rfl⟩

/-- What is done for one name stays done while others are seen to. -/
theorem Done.cons {w'' : World β} {names : List Str} (hname : name ∉ names) (h : Done I sha256 [name] w w')
    (h' : Done I sha256 names w' w'') : Done I sha256 (name :: names) w w'' where
  inv := h'.inv
  frame other hother := by
    obtain ⟨ht, hs⟩ := h.frame other fun hm => hother (List.mem_singleton.mp hm ▸ List.mem_cons_self)
    obtain ⟨ht', hs'⟩ := h'.frame other fun hm => hother (List.mem_cons_of_mem name hm)
    exact ⟨ht'.trans ht, hs'.trans hs⟩
  verified := by
    rintro other (_ | ⟨_, hother⟩)
    · obtain ⟨ht, hs⟩ := h'.frame name hname
      exact (verified_congr ht hs).mpr (h.verified name List.mem_cons_self)
    · exact h'.verified other hother
  idle hall := by
    have heq : w' = w := h.idle fun other hother => hall other (List.mem_singleton.mp hother ▸ List.mem_cons_self)
    subst heq
    exact h'.idle fun other hother => hall other (List.mem_cons_of_mem name hother)

/-- One name after the other; a condition `A` on each is one on what was there first. -/
theorem leads_forEach {one : Str → Cache Unit} {A : World β → Str → Prop}
    (hlocal : ∀ {w w' : World β} {name : Str}, w'.tar name = w.tar name → w'.sidecar name = w.sidecar name →
      (A w' name ↔ A w name)) : ∀ {names : List Str} {w : World β}, names.Nodup → I w →
    (flaky ∨ ¬ (∀ name ∈ names, A w name) → bad) →
    (∀ name ∈ names, ∀ w, I w → (flaky ∨ ¬ A w name → bad) →
      Leads bad flaky sha256 cdn I (one name) (fun _ w' => Done I sha256 [name] w w' ∧ (flaky ∨ A w name)) w) →
    Leads bad flaky sha256 cdn I (forEach one names)
      (fun _ w' => Done I sha256 names w w' ∧ (flaky ∨ ∀ name ∈ names, A w name)) w
  | [], _, _, hI, _, _ => ⟨Done.nil hI, .inr (by simp)⟩
  | name :: names, w, hnodup, hI, hbad, hone => by
    obtain ⟨hname, hnodup⟩ := List.nodup_cons.mp hnodup
    have hfirst : flaky ∨ ¬ A w name → bad := fun h =>
      hbad (h.imp id fun hno hall => hno (hall name List.mem_cons_self))
    refine wp_then (hone name List.mem_cons_self w hI hfirst) ?_
    rintro - w' ⟨hdone, hA⟩
    have hsame : ∀ other ∈ names, (A w' other ↔ A w other) := fun other hother =>
      have hne : other ∉ [name] := fun hm => hname (List.mem_singleton.mp hm ▸ hother)
      hlocal (hdone.frame other hne).1 (hdone.frame other hne).2
    have hrest : flaky ∨ ¬ (∀ other ∈ names, A w' other) → bad := fun h => hbad (h.imp id fun hno hall =>
      hno fun other hother => (hsame other hother).mpr (hall other (List.mem_cons_of_mem name hother)))
    refine wp_post (leads_forEach hlocal hnodup hdone.inv hrest fun other hother =>
      hone other (List.mem_cons_of_mem name hother)) ?_
    rintro - w'' ⟨hdone', hall⟩
    refine ⟨hdone.cons hname hdone', ?_⟩
    rcases hA with hf | hA
    · exact .inl hf
    · refine hall.imp id fun hall other hother => ?_
      rcases List.mem_cons.mp hother with rfl | hother
      · exact hA
      · exact (hsame other hother).mp (hall other hother)

/-! ### One tarball -/

theorem frame_acquired {b : β} (htar : w'.tar = Function.update w.tar name (some b)) (hside : w'.sidecar = w.sidecar) :
    Frame [name] w w' :=
  fun other hother => ⟨htar ▸ Function.update_of_ne (by simpa using hother) _ _, by rw [hside]⟩

/-- Where there is no sidecar one is written. -/
theorem leads_record {b : β} (hb : w.tar name = some b)
    (hI : ∀ text, text <+: sidecarLine (sha256 b) name → I (w.written name text)) (hI₀ : I w) (hbad : flaky → bad) :
    Leads bad flaky sha256 cdn I (record name)
      (fun _ w' => w' = w.written name (sidecarLine (sha256 b) name)) w := by
  unfold record
  refine leads_bind (leads_digest hI₀ (fun b' hb' => ?_) fun h => hbad (h.resolve_left (by simp [hb])))
  obtain rfl : b = b' := Option.some.inj (hb.symm.trans hb')
  exact leads_write hI hI₀ rfl hbad

section
variable (hhex : ∀ b, IsDigest (sha256 b))
include hhex

theorem expected_sidecarLine (b : β) (name : Str) : expected (sidecarLine (sha256 b) name) = some (sha256 b) := by
  rw [sidecarLine, List.append_assoc]
  exact expected_line (hhex b) _

/-- A tarball that is there is checked, or its digest is recorded. -/
theorem leads_verifySha256 {b : β} (hA : Allows sha256 I name) (hI : I w) (hb : w.tar name = some b)
    (hbad : flaky ∨ ¬ Fits sha256 w name b → bad) :
    Leads bad flaky sha256 cdn I (verifySha256 name)
      (fun _ w' => Done I sha256 [name] w w' ∧ Fits sha256 w name b) w := by
  unfold verifySha256
  refine leads_bind (leads_hasSidecar hI ?_)
  cases hside : w.sidecar name with
  | none =>
    have hrec : ∀ text, text <+: sidecarLine (sha256 b) name → I (w.written name text) :=
      fun text => hA.recorded w b text hI hside
    refine wp_post (leads_record hb hrec hI fun h => hbad (.inl h)) ?_
    rintro - _ rfl
    have hver : Verified sha256 (w.written name (sidecarLine (sha256 b) name)) name :=
      ⟨_, b, by simp, hb, expected_sidecarLine hhex b name⟩
    refine ⟨.one (hrec _ (List.prefix_refl _)) (frame_write w name _) hver ?_, fun text ht => by simp [hside] at ht⟩
    rintro ⟨text, -, htext, -⟩
    simp [hside] at htext
  | some text =>
    rw [if_pos Option.isSome_some]
    refine leads_bind (leads_value fun r w' hs => ?_)
    cases hs with
    | noRead hno =>
      exact ⟨hI, fun _ h => absurd h (by simp), fun _ => hbad (.inl (hno.resolve_left (by simp [hside])))⟩
    | readSidecar htext =>
      refine ⟨hI, fun s hs => ?_, fun h => absurd h (by simp)⟩
      obtain rfl : text = s := Option.some.inj ((hside.symm.trans htext).trans hs)
      have hfits : Fits sha256 w name b ↔ expected text = some (sha256 b) := by
        refine ⟨fun h => h text hside, fun h text' ht => ?_⟩
        rwa [Option.some.inj (hside.symm.trans ht)] at h
      cases hexp : expected text with
      | none => exact hbad (.inr fun h => absurd (hexp.symm.trans (hfits.mp h)) (by simp))
      | some want =>
        show Leads bad flaky sha256 cdn I (do
          let actual ← digest name
          if actual = want then pure () else throw (.mismatch name actual want)) _ w
        refine leads_bind (leads_digest hI (fun b' hb' => ?_) fun h => hbad (.inl (h.resolve_left (by simp [hb]))))
        obtain rfl : b = b' := Option.some.inj (hb.symm.trans hb')
        by_cases heq : sha256 b = want
        · rw [if_pos heq]
          have hfit : expected text = some (sha256 b) := hexp.trans (congrArg some heq.symm)
          have hver : Verified sha256 w name := ⟨text, b, hside, hb, hfit⟩
          exact ⟨.one hI (fun _ _ => ⟨rfl, rfl⟩) hver fun _ => rfl, hfits.mpr hfit⟩
        · rw [if_neg heq]
          exact hbad (.inr fun h => heq (Option.some.inj ((hfits.mp h).symm.trans hexp)))

theorem leads_ensureOne (hA : Allows sha256 I name) (hI : I w)
    (hbad : flaky ∨ ¬ Fits sha256 w name ((w.tar name).getD (cdn name)) → bad) :
    Leads bad flaky sha256 cdn I (ensureOne name)
      (fun _ w' => Done I sha256 [name] w w' ∧ (flaky ∨ Fits sha256 w name ((w.tar name).getD (cdn name)))) w := by
  unfold ensureOne
  refine leads_bind (leads_exists hI ?_)
  cases hb : w.tar name with
  | some b =>
    rw [hb, Option.getD_some] at hbad
    refine wp_post (leads_verifySha256 hhex hA hI hb hbad) ?_
    rintro - w' ⟨hdone, hfits⟩
    exact ⟨hdone, .inr hfits⟩
  | none =>
    rw [hb, Option.getD_none] at hbad
    have hflaky : flaky → bad := fun h => hbad (.inl h)
    have hnot : ¬ Verified sha256 w name := by
      rintro ⟨-, b, -, htar, -⟩
      simp [hb] at htar
    show Leads bad flaky sha256 cdn I (do downloadMqTarball name; verifySha256 name) _ w
    unfold downloadMqTarball
    refine leads_bind (wp_then (leads_acquire hA hI hflaky) ?_)
    rintro - w₁ ⟨hI₁, b, hb₁, htar, hside⟩
    have hthere : w₁.tar name = some b := by simp [htar]
    have hframe₁ : Frame [name] w w₁ := frame_acquired htar hside
    have hfits : flaky ∨ (Fits sha256 w₁ name b ↔ Fits sha256 w name (cdn name)) := by
      rcases hb₁ with rfl | hf
      · exact .inr (by rw [Fits, Fits, hside])
      · exact .inl hf
    refine leads_bind (leads_hasSidecar hI₁ ?_)
    cases hs : w₁.sidecar name with
    | some text =>
      have hbad₁ : flaky ∨ ¬ Fits sha256 w₁ name b → bad := by
        rintro (hf | hno)
        · exact hflaky hf
        · exact hbad (hfits.imp id fun h => mt h.mpr hno)
      show Leads bad flaky sha256 cdn I (verifySha256 name) _ w₁
      refine wp_post (leads_verifySha256 hhex hA hI₁ hthere hbad₁) ?_
      rintro - w' ⟨hdone, hfit⟩
      exact ⟨hdone.after hframe₁ hnot, hfits.imp id fun h => h.mp hfit⟩
    | none =>
      have hrec : ∀ text, text <+: sidecarLine (sha256 b) name → I (w₁.written name text) :=
        fun text => hA.recorded w₁ b text hI₁ hs
      refine wp_post (leads_record hthere hrec hI₁ hflaky) ?_
      rintro - _ rfl
      -- the digest that was just recorded is that of what is there
      have hnew : Fits sha256 (w₁.written name (sidecarLine (sha256 b) name)) name b := by
        intro text ht
        obtain rfl : sidecarLine (sha256 b) name = text := by simpa using ht
        exact expected_sidecarLine hhex b name
      refine wp_post (leads_verifySha256 hhex hA (hrec _ (List.prefix_refl _)) hthere fun h =>
        hflaky (h.resolve_right (not_not_intro hnew))) ?_
      rintro - w' ⟨hdone, -⟩
      refine ⟨hdone.after (hframe₁.trans (frame_write w₁ name _)) hnot, .inr fun text ht => ?_⟩
      rw [← hside, hs] at ht
      exact absurd ht (by simp)

/-- The check of a sidecar that such a run has left. -/
theorem verified_of_check (hs : Sound sha256 w) (hname : IsTarball name) {file tail : Str} {b : β}
    (hside : w.sidecar name = some (sha256 b ++ [' ', ' '] ++ file ++ tail)) (hb : w.tar file = some b) :
    Verified sha256 w name := by
  obtain ⟨b₀, hline⟩ := hs.lines name _ hside
  obtain ⟨-, rfl⟩ := line_of_prefix (hhex b₀) (hhex b) hname (hs.names file (by simp [hb])) hline
  refine ⟨_, b, hside, hb, ?_⟩
  rw [List.append_assoc]
  exact expected_line (hhex b) _

theorem leads_fetchOne (hname : IsTarball name) (hk : Kept sha256 w₀ w) :
    Leads True flaky sha256 cdn (Kept sha256 w₀) (fetchOne name)
      (fun _ w' => Done (Kept sha256 w₀) sha256 [name] w w') w := by
  have hA : Allows sha256 (Kept sha256 w₀) name := allows_kept hname
  unfold fetchOne
  refine leads_bind (leads_exists hk ?_)
  have hthere : Leads True flaky sha256 cdn (Kept sha256 w₀)
      (if (w.tar name).isSome = true then pure () else acquire name)
      (fun _ w' => Kept sha256 w₀ w' ∧ Frame [name] w w' ∧ (∃ b, w'.tar name = some b) ∧
        (Verified sha256 w name → w' = w)) w := by
    cases hb : w.tar name with
    | some b => exact ⟨hk, fun _ _ => ⟨rfl, rfl⟩, ⟨b, hb⟩, fun _ => rfl⟩
    | none =>
      refine wp_post (leads_acquire hA hk fun _ => trivial) ?_
      rintro - w' ⟨hk', b, -, htar, hside⟩
      refine ⟨hk', frame_acquired htar hside, ⟨b, by simp [htar]⟩, ?_⟩
      rintro ⟨-, b', -, hb', -⟩
      simp [hb] at hb'
  refine wp_then hthere ?_
  rintro - w₁ ⟨hk₁, hframe, ⟨b, hb⟩, hidle⟩
  refine leads_bind (leads_hasSidecar hk₁ ?_)
  cases hs : w₁.sidecar name with
  | some text =>
    refine leads_call fun ok w' hcheck => ?_
    cases hcheck with
    | check _ hside hfile =>
      exact ⟨hk₁, fun _ => .one hk₁ hframe (verified_of_check hhex hk₁.sound hname hside hfile) hidle, .inl rfl⟩
    | noCheck => exact ⟨hk₁, fun h => absurd h (by simp), .inr trivial⟩
  | none =>
    have hrec : ∀ text, text <+: sidecarLine (sha256 b) name → Kept sha256 w₀ (w₁.written name text) :=
      fun text => hA.recorded w₁ b text hk₁ hs
    have hempty : Kept sha256 w₀ (w₁.written name []) := hrec [] List.nil_prefix
    have hnot : ¬ Verified sha256 w name := by
      intro hver
      have ⟨text, _, htext, _⟩ := hver
      rw [← hidle hver, hs] at htext
      exact absurd htext (by simp)
    refine leads_bind (leads_write (fun torn ht => hrec torn (ht.trans List.nil_prefix)) hk₁ ?_ fun _ => trivial)
    refine wp_post (leads_record hb (fun text ht => ?_) hempty fun _ => trivial) ?_
    · simpa only [World.written_written] using hrec text ht
    · rintro - _ rfl
      simp only [World.written_written]
      exact .one (hrec _ (List.prefix_refl _)) (hframe.trans (frame_write w₁ name _))
        ⟨_, b, by simp, hb, expected_sidecarLine hhex b name⟩ fun hver => absurd hver hnot

end

end MqCache
end MqResiliency
