/-
# No broken release is live

Whatever the tasks come to and wherever runs are cut off, `venv` is absent or
links to a release whose selfcheck succeeded in place, and `previous` is
absent or links to a release that is there. Between runs there is a third
part, which the flip back rests on: where `venv` is absent, so is `previous`
(`Good`). A flip then leaves in `previous` just what `venv` was before
(`wp_flip`), so flipping back restores it (`wp_flipBack`).
-/
import MqResiliency.Lab.ComponentInstall

namespace MqResiliency
namespace Lab
namespace ComponentInstall

open Py Prog

/-! ### Paths -/

theorem stripSlashes_append {a b : Str} (h : b ≠ []) (hb : ∀ hl : b ≠ [], b.getLast hl ≠ '/') :
    stripSlashes (a ++ b) = a ++ b := by
  unfold stripSlashes
  rw [List.rdropWhile_eq_self_iff]
  intro hl
  rw [List.getLast_append_of_ne_nil hl h]
  simpa using hb h

theorem rdropWhile_append_slash {a b : Str} (hb : ∀ c ∈ b, c ≠ '/') :
    (a ++ '/' :: b).rdropWhile (fun c => c ≠ '/') = a ++ ['/'] := by
  induction b using List.reverseRecOn with
  | nil => exact List.rdropWhile_concat_neg _ _ _ (by simp)
  | append_singleton b c ih =>
    have hassoc : a ++ '/' :: (b ++ [c]) = (a ++ '/' :: b) ++ [c] := by simp
    have hc : c ≠ '/' := hb c (by simp)
    rw [hassoc, List.rdropWhile_concat_pos _ _ _ (by simpa using hc)]
    exact ih fun c' hc' => hb c' (by simp [hc'])

theorem rtakeWhile_append_slash {a b : Str} (hb : ∀ c ∈ b, c ≠ '/') :
    (a ++ '/' :: b).rtakeWhile (fun c => c ≠ '/') = b := by
  have h : (a ++ '/' :: b).rdropWhile (fun c => c ≠ '/') ++ (a ++ '/' :: b).rtakeWhile (fun c => c ≠ '/') =
      a ++ '/' :: b := List.rdropWhile_append_rtakeWhile
  have hsplit : (a ++ ['/']) ++ b = a ++ '/' :: b := by simp
  rw [rdropWhile_append_slash hb] at h
  exact List.append_cancel_left (h.trans hsplit.symm)

/-- What a release may be called. -/
def IsId (id : Str) : Prop := id ≠ [] ∧ '/' ∉ id

theorem isId_releaseId (source : Str) (stamp : Stamp) : IsId (releaseId source stamp) := by
  refine ⟨by simp [releaseId], fun hmem => ?_⟩
  obtain hbase | hdash | hstamp : '/' ∈ ansibleBasename source ∨ '/' = '-' ∨ '/' ∈ stamp.text := by
    simpa [releaseId] using hmem
  · have := List.mem_rtakeWhile_imp hbase
    simp at this
  · exact absurd hdash (by decide)
  · have := stamp.plain _ hstamp
    revert this
    decide

/-- A link to a release names it. -/
theorem keeps_venvPath {id : Str} (h : IsId id) : (Entry.link (venvPath id)).keeps = id := by
  obtain ⟨hne, hslash⟩ := h
  have hlast : ∀ hl : id ≠ [], id.getLast hl ≠ '/' := fun hl he => hslash (he ▸ List.getLast_mem hl)
  have hid : ∀ c ∈ id, c ≠ '/' := fun c hc he => hslash (he ▸ hc)
  have hstrip : stripSlashes (venvPath id) = ("releases/".toList ++ id) ++ '/' :: "venv".toList := by
    have hpath : venvPath id = ("releases/".toList ++ id) ++ "/venv".toList := (List.append_assoc _ _ _).symm
    rw [hpath, stripSlashes_append (by decide) (by decide)]
    rfl
  have hparent : stripSlashes (("releases/".toList ++ id) ++ ['/']) = "releases/".toList ++ id := by
    have hdrop : stripSlashes (("releases/".toList ++ id) ++ ['/']) = stripSlashes ("releases/".toList ++ id) :=
      List.rdropWhile_concat_pos _ _ _ (by simp)
    rw [hdrop, stripSlashes_append hne hlast]
  have hdir : dirname (venvPath id) = "releases/".toList ++ id := by
    unfold dirname
    rw [hstrip, if_neg (by simp), rdropWhile_append_slash (by decide)]
    show (if _ then _ else if _ then _ else stripSlashes (("releases/".toList ++ id) ++ ['/'])) = _
    rw [hparent, if_neg (by simp), if_neg (by simp)]
  have hbase : basename ("releases".toList ++ '/' :: id) = id := by
    unfold basename
    have hself : stripSlashes ("releases/".toList ++ id) = "releases".toList ++ '/' :: id :=
      stripSlashes_append hne hlast
    have hcons : "releases".toList ++ '/' :: id = "releases/".toList ++ id := rfl
    rw [hcons, hself, if_neg (by simp), rtakeWhile_append_slash hid]
  show basename (dirname (venvPath id)) = id
  rw [hdir]
  exact hbase

theorem venvPath_ne_nil (id : Str) : venvPath id ≠ [] := List.append_ne_nil_of_left_ne_nil (by decide) _

theorem venvPath_inj {id id' : Str} (h : venvPath id = venvPath id') : id = id' :=
  List.append_cancel_right (List.append_cancel_left h)

/-! ### Good guests -/

section
variable {ρ : Type}

/-- A link to a release of which `p` holds. -/
def LinksTo (w : Guest ρ) (p : Release → Prop) (e : Entry) : Prop :=
  ∃ id, IsId id ∧ e = .link (venvPath id) ∧ p (w.releases id)

/-- What holds at every moment. -/
structure Good (w : Guest ρ) : Prop where
  live : w.entry .venv = .absent ∨ LinksTo w (· = .checked) (w.entry .venv)
  previous : w.entry .previous = .absent ∨ LinksTo w (· ≠ .absent) (w.entry .previous)
  bare : w.entry .venv = .absent → w.entry .previous = .absent

/-- The guest is good, and there is no release but those of `w` and `id`. -/
structure Kept (w : Guest ρ) (id : Str) (s : Guest ρ) : Prop where
  good : Good s
  known : ∀ j, s.releases j ≠ .absent → j = id ∨ w.releases j ≠ .absent

/-- How a run that ends early leaves the guest. -/
def Ends (w : Guest ρ) : Halt → Guest ρ → Prop
  | .precondition, s => s = w
  | .task, _ => True
  | .buildFailed, s => s.entry .venv = w.entry .venv
  | .liveFailed, s => s.entry .venv = w.entry .venv

/-- The links are those of `w`, and so are the other releases. -/
def Beside (w : Guest ρ) (id : Str) (s : Guest ρ) : Prop :=
  s.entry = w.entry ∧ ∀ j, j ≠ id → s.releases j = w.releases j

/-- The release is live, and `previous` is what was live before. -/
structure Live (w : Guest ρ) (id : Str) (s : Guest ρ) : Prop where
  venv : s.entry .venv = .link (venvPath id)
  previous : s.entry .previous = w.entry .venv
  checked : s.releases id = .checked
  there : w.entry .venv = .absent ∨ LinksTo s (· = .checked) (w.entry .venv)
  temps : ∀ n, s.temp n = .absent
  known : ∀ j, s.releases j ≠ .absent → j = id ∨ w.releases j ≠ .absent

variable {w s s' : Guest ρ} {id : Str} {e : Entry} {p q : Release → Prop}

theorem LinksTo.mono (h : LinksTo w p e) (hq : ∀ i, e = .link (venvPath i) → p (w.releases i) → q (s.releases i)) :
    LinksTo s q e := by
  obtain ⟨i, hid, rfl, hp⟩ := h
  exact ⟨i, hid, rfl, hq i rfl hp⟩

/-- A release that is not there has no link. -/
theorem LinksTo.ne (h : LinksTo w p e) (hfresh : w.releases id = .absent) (hp : ¬ p .absent) :
    e ≠ .link (venvPath id) := by
  obtain ⟨i, -, rfl, hi⟩ := h
  intro he
  have hid : i = id := venvPath_inj (Entry.link.inj he)
  rw [hid, hfresh] at hi
  exact hp hi

theorem Beside.kept (hgood : Good w) (hfresh : w.releases id = .absent) (h : Beside w id s) : Kept w id s := by
  obtain ⟨hentry, hrel⟩ := h
  have hlinks : ∀ {p : Release → Prop} {e}, ¬ p .absent → LinksTo w p e → LinksTo s p e := by
    intro p e hp hl
    refine hl.mono fun i he hi => ?_
    have hne : i ≠ id := fun h => hl.ne hfresh hp (h ▸ he)
    rwa [hrel i hne]
  refine ⟨⟨?_, ?_, ?_⟩, fun j hj => ?_⟩
  · rw [hentry]
    exact hgood.live.imp_right (hlinks (by simp))
  · rw [hentry]
    exact hgood.previous.imp_right (hlinks (by simp))
  · rw [hentry]
    exact hgood.bare
  · by_cases hjd : j = id
    · exact .inl hjd
    · exact .inr (hrel j hjd ▸ hj)

theorem LinksTo.there (h : LinksTo w (· = .checked) e) : LinksTo w (· ≠ .absent) e :=
  h.mono fun _ _ hc => by simp [hc]

theorem Live.kept (hid : IsId id) (h : Live w id s) : Kept w id s := by
  refine ⟨⟨.inr ⟨id, hid, h.venv, h.checked⟩, ?_, fun hv => ?_⟩, h.known⟩
  · rw [h.previous]
    exact h.there.imp_right LinksTo.there
  · rw [h.venv] at hv
    cases hv

/-- Nothing but the rest of the guest is different. -/
theorem Live.task (h : Live w id s) (rest : ρ) : Live w id { s with rest } :=
  ⟨h.venv, h.previous, h.checked, h.there, h.temps, h.known⟩

/-! ### Commands -/

section
variable {I : Guest ρ → Prop} {Q : Unit → Guest ρ → Prop} {E : Halt → Guest ρ → Prop}

/-- A command that has to succeed. -/
theorem wp_must (c : Cmd) (ok : Ans c → Bool) (hI : ∀ a s', Answers s c a s' → I s')
    (hQ : ∀ a s', Answers s c a s' → ok a = true → Q () s')
    (hE : ∀ a s', Answers s c a s' → ok a = false → E .task s') :
    (must (Prog.call c fun a => .ret (ok a))).wp Answers I Q E s := by
  refine fun a s' h => ⟨hI a s' h, ?_⟩
  show ((if ok a then pure () else throw .task : Play Unit)).wp Answers I Q E s'
  cases hok : ok a with
  | true => exact hQ a s' h hok
  | false => exact hE a s' h hok

/-- A task leaves the links and the releases alone. -/
theorem wp_task {P : Guest ρ → Prop} (t : Task) (hP : ∀ s rest, P s → P { s with rest }) (hI : ∀ s, P s → I s)
    (hE : ∀ s, P s → E .task s) (hs : P s) : (task t).wp Answers I (fun _ => P) E s := by
  have hstep : ∀ (a : Bool) s', Answers s (.task t) a s' → P s' := by
    rintro a s' ⟨rest, rfl⟩
    exact hP s rest hs
  exact wp_must (.task t) (fun ok => ok) (fun a s' h => hI s' (hstep a s' h)) (fun a s' h _ => hstep a s' h)
    fun a s' h _ => hE s' (hstep a s' h)

theorem wp_tasks {P : Guest ρ → Prop} {α : Type} (t : α → Task) (hP : ∀ s rest, P s → P { s with rest })
    (hI : ∀ s, P s → I s) (hE : ∀ s, P s → E .task s) : ∀ (l : List α) {s}, P s →
    (l.forM fun a => task (t a)).wp Answers I (fun _ => P) E s
  | [], _, hs => hs
  | a :: l, _, hs => wp_then (wp_task (t a) hP hI hE hs) fun _ _ h => wp_tasks t hP hI hE l h

theorem wp_enabled {P : Guest ρ → Prop} (hI : ∀ s, P s → I s) (hE : ∀ s, P s → E .task s) :
    ∀ (units : List Str) {s}, P s → (enabled units).wp Answers I (fun _ => P) E s
  | [], _, hs => hs
  | unit :: units, s, hs => by
    rintro state s' rfl
    refine ⟨hI _ hs, ?_⟩
    show ((if state = [] then throw .task else _ : Play (List Str))).wp Answers I _ E _
    split
    · exact hE _ hs
    · exact wp_then (wp_enabled hI hE units hs) fun _ _ h => h

end

/-- Making a link by way of its temporary name. -/
theorem setTemp_rename {n : Name} (htemp : s.temp n = .absent) (e : Entry) :
    ((s.setTemp n e).setEntry n ((s.setTemp n e).temp n)).setTemp n .absent = s.setEntry n e := by
  have htemps : Function.update (Function.update s.temp n e) n .absent = s.temp := by
    rw [Function.update_idem, ← htemp, Function.update_eq_self]
  simp [Guest.setTemp, Guest.setEntry, htemps]

theorem wp_relink {n : Name} {target : Str} {Q : Unit → Guest ρ → Prop} {E : Halt → Guest ρ → Prop}
    (htemp : s.temp n = .absent) (hs : Kept w id s) (hs' : Kept w id (s.setEntry n (.link target)))
    (hQ : Q () (s.setEntry n (.link target))) (hE : ∀ s', E .task s') :
    (relink n target).wp Answers (Kept w id) Q E s := by
  have htemped : Kept w id (s.setTemp n (.link target)) := ⟨⟨hs.good.live, hs.good.previous, hs.good.bare⟩, hs.known⟩
  have hlink : (must (Prog.ask (Cmd.link n target))).wp Answers (Kept w id)
      (fun _ s₁ => s₁ = s.setTemp n (.link target)) E s := by
    refine wp_must (.link n target) (fun ok => ok) (fun a s₁ h => ?_) (fun a s₁ h hok => ?_) fun _ s₁ _ _ => hE s₁
    · have h : s₁ = if a = true ∧ s.temp n = .absent then s.setTemp n (.link target) else s := h
      rw [h]
      split
      · exact htemped
      · exact hs
    · have h : s₁ = if a = true ∧ s.temp n = .absent then s.setTemp n (.link target) else s := h
      rw [h, if_pos ⟨hok, htemp⟩]
  refine wp_then hlink ?_
  rintro - _ rfl
  refine wp_must (.rename n) (fun ok => ok) (fun a s₂ h => ?_) (fun a s₂ h hok => ?_) fun _ s₂ _ _ => hE s₂
  · cases a with
    | true => exact h.2 ▸ setTemp_rename htemp _ ▸ hs'
    | false => exact h ▸ htemped
  · cases a with
    | true => exact h.2 ▸ setTemp_rename htemp _ ▸ hQ
    | false => cases hok

/-! ### Building a release -/

theorem Beside.refl (w : Guest ρ) (id : Str) : Beside w id w := ⟨rfl, fun _ _ => rfl⟩

theorem setRelease_of_ne {j : Str} (hj : j ≠ id) (r : Release) : (s.setRelease id r).releases j = s.releases j := by
  simp [Guest.setRelease, hj]

theorem setRelease_self (r : Release) : (s.setRelease id r).releases id = r := by simp [Guest.setRelease]

theorem Beside.setRelease (h : Beside w id s) (r : Release) : Beside w id (s.setRelease id r) :=
  ⟨h.1, fun j hj => (setRelease_of_ne hj r).trans (h.2 j hj)⟩

section
variable (hgood : Good w) (hfresh : w.releases id = .absent)
include hgood hfresh

theorem wp_stage : stage.wp Answers (Kept w id) (fun _ => Beside w id) (Ends w) w := by
  have hstep : ∀ (t : Task) s, Beside w id s →
      (task t).wp Answers (Kept w id) (fun _ => Beside w id) (Ends w) s := fun t s hs =>
    wp_task t (fun _ _ h => h) (fun _ h => h.kept hgood hfresh) (fun _ _ => trivial) hs
  refine wp_then (hstep .stagingDir w (.refl w id)) fun _ s₁ h₁ => ?_
  refine wp_then (hstep .clearStage s₁ h₁) fun _ s₂ h₂ => ?_
  refine wp_then (hstep .copyArtifact s₂ h₂) fun _ s₃ h₃ => ?_
  exact wp_then (hstep .rootDir s₃ h₃) fun _ s₄ h₄ => hstep .etcDir s₄ h₄

/-- What building a release may issue. -/
def Builds (id : Str) : Cmd → Prop
  | .build i _ => i = id
  | .nonEmpty _ => True
  | .gccFor _ _ => True
  | _ => False

omit hgood hfresh in
theorem Builds.beside {c : Cmd} {a : Ans c} (hc : Builds id c) (hs : Beside w id s) (h : Answers s c a s') :
    Beside w id s' := by
  cases c with
  | build i b =>
    obtain rfl : i = id := hc
    cases b with
    | remove | mkdir | venv | pipRequirements | pipWheel =>
      obtain ⟨r, -, rfl⟩ := h
      exact hs.setRelease r
  | nonEmpty file =>
    obtain rfl : s' = s := h
    exact hs
  | gccFor i var =>
    obtain rfl : s' = s := h
    exact hs
  | statPin | slurpPin | task | selfcheck | look | removeLegacy | removeVenv | clearTemps | link | rename
  | liveSelfcheck | listReleases | prune | isEnabled => exact hc.elim

omit hgood hfresh in
theorem issues_must {K : Cmd → Prop} {ok : Play Bool} (h : ok.Issues K) : (must ok).Issues K :=
  issues_bind h fun a => by cases a <;> trivial

omit hgood hfresh in
theorem issues_build (id : Str) : (build id).Issues (Builds id) := by
  have hcmd : ∀ b : Build, (must (Prog.ask (Cmd.build id b))).Issues (Builds id) := fun b =>
    issues_must (issues_ask (C := Cmd) rfl)
  have hruntime : (pipRuntime id).Issues (Builds id) := by
    refine issues_bind (issues_ask trivial) fun cc => ?_
    split
    · trivial
    · refine issues_bind (issues_ask trivial) fun ldshared => ?_
      split
      · trivial
      · exact hcmd (.pipRequirements .runtime)
  refine issues_bind (hcmd .remove) fun _ => issues_bind (hcmd .mkdir) fun _ => issues_bind (hcmd .venv) fun _ => ?_
  have hrest : ∀ some : Bool, (do
      if some then pipRuntime id
      must (Prog.ask (Cmd.build id .pipWheel)) : Play Unit).Issues (Builds id) := by
    intro some
    cases some with
    | true => exact issues_bind hruntime fun _ => hcmd .pipWheel
    | false => exact hcmd .pipWheel
  refine issues_bind (issues_ask trivial) fun some => ?_
  cases some with
  | true => exact issues_bind (hcmd (.pipRequirements .build)) fun _ => issues_bind (issues_ask trivial) hrest
  | false => exact issues_bind (issues_ask trivial) hrest

/-- A build that fails is removed; one that passes is there, with its
selfcheck passed. -/
theorem wp_buildBlock (hs : Beside w id s) : (buildBlock id).wp Answers (Kept w id)
    (fun _ s' => Beside w id s' ∧ s'.releases id = .checked) (Ends w) s := by
  have hkept : ∀ {s'}, Beside w id s' → Kept w id s' := fun h => h.kept hgood hfresh
  have hrescue : ∀ s', Beside w id s' → (do
      must (Prog.ask (Cmd.build id .remove))
      throw .buildFailed : Play Unit).wp Answers (Kept w id) (fun _ s' => Beside w id s' ∧ s'.releases id = .checked)
      (Ends w) s' := by
    intro s' hs'
    have hstep : ∀ (a : Bool) s₁, Answers s' (.build id .remove) a s₁ → Beside w id s₁ := fun a s₁ h =>
      Builds.beside (c := .build id .remove) rfl hs' h
    refine wp_then (P := fun _ => Beside w id) (wp_must (.build id .remove) (fun ok => ok)
      (fun a s₁ h => hkept (hstep a s₁ h)) (fun a s₁ h _ => hstep a s₁ h) fun _ _ _ _ => trivial) ?_
    exact fun _ s₁ h₁ => congrFun h₁.1 .venv
  show ((do
      build id
      must (Prog.ask (Cmd.selfcheck id)) : Play Unit).handle _).wp Answers _ _ _ s
  rw [wp_handle]
  refine wp_mono (fun _ _ h => h) (fun _ => hrescue) _ s ?_
  refine wp_then (wp_of_issues (fun s c a s' hc hs h => ?_) (issues_build id) s hs) fun _ s₁ h₁ => ?_
  · have hs' : Beside w id s' := hc.beside hs h
    exact ⟨hkept hs', hs'⟩
  · refine wp_must (.selfcheck id) (fun ok => ok) (fun a s₂ h => ?_) (fun a s₂ h hok => ?_) fun a s₂ h hok => ?_
    · cases a with
      | true => exact hkept (h.2 ▸ h₁.setRelease .checked)
      | false => exact hkept (h ▸ h₁)
    · cases a with
      | true => exact h.2 ▸ ⟨h₁.setRelease .checked, setRelease_self .checked⟩
      | false => cases hok
    · cases a with
      | true => cases hok
      | false => exact h ▸ h₁

end

/-! ### Flipping -/

/-- A good guest without the temporary names. -/
theorem Kept.temps (h : Kept w id s) (temp : Name → Entry) : Kept w id { s with temp } :=
  ⟨⟨h.good.live, h.good.previous, h.good.bare⟩, h.known⟩

theorem wp_clearTemps {E : Halt → Guest ρ → Prop} (hs : Kept w id s) (hE : ∀ s', E .task s') :
    (must (Prog.ask Cmd.clearTemps)).wp Answers (Kept w id)
      (fun _ s' => (∀ n, s'.temp n = .absent) ∧ ∃ temp, s' = { s with temp }) E s := by
  refine wp_must .clearTemps (fun ok => ok) (fun a s' h => ?_) (fun a s' h hok => ?_) fun _ s' _ _ => hE s'
  · obtain ⟨temp, -, rfl⟩ := h
    exact hs.temps temp
  · obtain ⟨temp, htemp, rfl⟩ := h
    exact ⟨htemp hok, temp, rfl⟩

section
variable (hgood : Good w) (hid : IsId id) (hfresh : w.releases id = .absent)

include hfresh in
/-- The other releases are as they were. -/
theorem Beside.linksTo {p : Release → Prop} (hp : ¬ p .absent) (hs : Beside w id s) (h : LinksTo w p e) :
    LinksTo s p e := by
  refine h.mono fun i he hi => ?_
  have hne : i ≠ id := fun hii => h.ne hfresh hp (hii ▸ he)
  rwa [hs.2 i hne]

include hgood hid hfresh in
/-- Once `venv` is flipped, with `previous` as it was. -/
theorem kept_flipped (hs : Beside w id s) (hchecked : s.releases id = .checked) :
    Kept w id (s.setEntry .venv (.link (venvPath id))) := by
  have hprev : (s.setEntry .venv (.link (venvPath id))).entry .previous = w.entry .previous := by
    simp [Guest.setEntry, hs.1]
  refine ⟨⟨.inr ⟨id, hid, by simp [Guest.setEntry], hchecked⟩, ?_, fun hv => ?_⟩, (hs.kept hgood hfresh).known⟩
  · rw [hprev]
    refine hgood.previous.imp_right fun h => ?_
    have hlinks : LinksTo s (· ≠ .absent) (w.entry .previous) := hs.linksTo hfresh (by simp) h
    exact hlinks
  · simp [Guest.setEntry] at hv

include hgood hid hfresh in
/-- **The flip makes the release live, and `previous` what was live before.** -/
theorem wp_flip (hs : Beside w id s) (hchecked : s.releases id = .checked) :
    (flip id).wp Answers (Kept w id) (fun _ => Live w id) (Ends w) s := by
  have hkept : Kept w id s := hs.kept hgood hfresh
  refine wp_then (P := fun live s' => live = w.entry .venv ∧ s' = s) ?_ ?_
  · rintro live s' ⟨rfl, rfl⟩
    exact ⟨hkept, congrFun hs.1 .venv, rfl⟩
  rintro live s' ⟨hlive, he⟩
  rw [hlive, he]
  have hclear : (clearLegacy (w.entry .venv)).wp Answers (Kept w id) (fun _ s₁ => s₁ = s) (Ends w) s := by
    have hno : w.entry .venv ≠ .other := by
      intro ho
      obtain ha | ⟨i, -, hl, -⟩ := hgood.live
      · rw [ho] at ha
        cases ha
      · rw [ho] at hl
        cases hl
    rw [clearLegacy, if_neg hno]
    rfl
  refine wp_then hclear fun _ s₀ h₀ => ?_
  rw [h₀]
  refine wp_then (wp_clearTemps hkept fun _ => trivial) ?_
  rintro - _ ⟨htemp, temp, rfl⟩
  have hflipped : Kept w id (({ s with temp } : Guest ρ).setEntry .venv (.link (venvPath id))) :=
    kept_flipped hgood hid hfresh (s := { s with temp }) hs hchecked
  have hold : w.entry .venv = .absent ∨ LinksTo s (· = .checked) (w.entry .venv) :=
    hgood.live.imp_right fun h => hs.linksTo hfresh (by simp) h
  refine wp_then (P := fun _ s₂ => s₂ = _) (wp_relink (htemp .venv) (hkept.temps temp) hflipped rfl
    fun _ => trivial) ?_
  rintro - _ rfl
  show ((if _ then _ else _ : Play Unit)).wp _ _ _ _ _
  obtain habsent | hlink := hgood.live
  · have hprev : s.entry .previous = w.entry .venv := by
      rw [hs.1, hgood.bare habsent, habsent]
    rw [if_neg (by simp [habsent, Entry.readlink])]
    exact ⟨by simp [Guest.setEntry], by simpa [Guest.setEntry] using hprev, hchecked, hold, htemp, hkept.known⟩
  · have hne : w.entry .venv ≠ .link (venvPath id) := hlink.ne hfresh (by simp)
    obtain ⟨i, -, hi, -⟩ := hlink
    have htarget : (w.entry .venv).readlink = venvPath i := by rw [hi]; rfl
    have hpath : venvPath i ≠ venvPath id := fun h => hne (hi.trans (congrArg Entry.link h))
    rw [htarget, if_pos ⟨venvPath_ne_nil i, hpath⟩]
    have hlive' : Live w id
        ((({ s with temp } : Guest ρ).setEntry .venv (.link (venvPath id))).setEntry .previous (.link (venvPath i))) :=
      ⟨by simp [Guest.setEntry], by simp [Guest.setEntry, hi], hchecked, hold, htemp, hkept.known⟩
    exact wp_relink (htemp .previous) hflipped (hlive'.kept hid) hlive' fun _ => trivial

include hid in
/-- **Flipping back restores what was live before**, or takes the release off. -/
theorem wp_flipBack (hs : Live w id s) : flipBack.wp Answers (Kept w id)
    (fun _ s' => s'.entry .venv = w.entry .venv) (Ends w) s := by
  have hkept : Kept w id s := hs.kept hid
  refine wp_then (P := fun prev s' => prev = w.entry .venv ∧ s' = s) ?_ ?_
  · rintro prev s' ⟨rfl, rfl⟩
    exact ⟨hkept, hs.previous, rfl⟩
  rintro prev s' ⟨hprev, he⟩
  rw [hprev, he]
  obtain habsent | hlink := hs.there
  · rw [habsent]
    have hprev : s.entry .previous = .absent := hs.previous.trans habsent
    have hbare : Kept w id (s.setEntry .venv .absent) :=
      ⟨⟨.inl (by simp [Guest.setEntry]), .inl (by simpa [Guest.setEntry] using hprev),
        fun _ => by simpa [Guest.setEntry] using hprev⟩, hkept.known⟩
    refine wp_must .removeVenv (fun ok => ok) (fun a s₁ h => ?_) (fun a s₁ h hok => ?_) fun _ _ _ _ => trivial
    · cases a with
      | true => exact h ▸ hbare
      | false => exact h ▸ hkept
    · cases a with
      | true => exact h ▸ (by simp [Guest.setEntry])
      | false => cases hok
  · have hback : Kept w id (s.setEntry .venv (w.entry .venv)) := by
      have hvenv : (s.setEntry .venv (w.entry .venv)).entry .venv = w.entry .venv := by simp [Guest.setEntry]
      have hprevious : (s.setEntry .venv (w.entry .venv)).entry .previous = w.entry .venv := by
        simp [Guest.setEntry, hs.previous]
      refine ⟨⟨?_, ?_, ?_⟩, hkept.known⟩
      · rw [hvenv]
        exact hs.there
      · rw [hprevious]
        exact .inr hlink.there
      · rw [hvenv, hprevious]
        exact fun h => h
    obtain ⟨i, -, hi, -⟩ := hlink
    rw [hi] at hback ⊢
    exact wp_relink (hs.temps .venv) hkept hback (by simp [Guest.setEntry]) fun _ => trivial

include hid in
/-- A release that fails through the live path is not live. -/
theorem wp_liveBlock (hs : Live w id s) : liveBlock.wp Answers (Kept w id) (fun _ => Live w id) (Ends w) s := by
  have hrescue : (do
      flipBack
      throw .liveFailed : Play Unit).wp Answers (Kept w id) (fun _ => Live w id) (Ends w) s :=
    wp_then (wp_flipBack hid hs) fun _ _ h => h
  show ((must (Prog.ask Cmd.liveSelfcheck)).handle _).wp Answers _ _ _ s
  rw [wp_handle]
  refine wp_must .liveSelfcheck (fun ok => ok) (fun a s' h => ?_) (fun a s' h _ => ?_) fun a s' h _ => ?_
  · exact h ▸ hs.kept hid
  · exact h ▸ hs
  · exact h ▸ hrescue

/-! ### Pruning -/

/-- Removing a release that has no link. -/
theorem Live.setRelease (hs : Live w id s) {i : Str} (hi : i ≠ id) (hprev : w.entry .venv ≠ .link (venvPath i))
    {r : Release} (hr : r ≠ .absent → s.releases i ≠ .absent) : Live w id (s.setRelease i r) := by
  have hchecked : (s.setRelease i r).releases id = .checked := by
    rw [setRelease_of_ne (Ne.symm hi)]
    exact hs.checked
  have hthere : w.entry .venv = .absent ∨ LinksTo (s.setRelease i r) (· = .checked) (w.entry .venv) := by
    refine hs.there.imp_right fun h => h.mono fun j hj hc => ?_
    have hne : j ≠ i := fun h => hprev (h ▸ hj)
    rwa [setRelease_of_ne hne]
  have hknown : ∀ j, (s.setRelease i r).releases j ≠ .absent → j = id ∨ w.releases j ≠ .absent := by
    intro j hj
    by_cases hji : j = i
    · rw [hji, setRelease_self] at hj
      rw [hji]
      exact hs.known i (hr hj)
    · rw [setRelease_of_ne hji] at hj
      exact hs.known j hj
  exact ⟨hs.venv, hs.previous, hchecked, hthere, hs.temps, hknown⟩

theorem Release.removed.there {old r : Release} {ok : Bool} (h : old.removed ok r) (hr : r ≠ .absent) :
    old ≠ .absent := by
  cases ok with
  | true => exact absurd h hr
  | false =>
    obtain rfl | ⟨hold, -⟩ := h
    · exact hr
    · exact hold

include hid in
theorem wp_pruneAll {keepPrev : Str} (hprev : ∀ i, w.entry .venv = .link (venvPath i) → keepPrev = i) :
    ∀ (ids : List Str) {s : Guest ρ}, Live w id s →
      (pruneAll id keepPrev ids).wp Answers (Kept w id) (fun _ => Live w id) (Ends w) s
  | [], _, hs => hs
  | i :: ids, s, hs => by
    have hrest : ∀ s', Live w id s' →
        (pruneAll id keepPrev ids).wp Answers (Kept w id) (fun _ => Live w id) (Ends w) s' := fun s' hs' =>
      wp_pruneAll hprev ids hs'
    refine wp_then (P := fun _ => Live w id) ?_ fun _ => hrest
    unfold pruneOne
    by_cases hkeep : i ≠ id ∧ i ≠ keepPrev
    · rw [if_pos hkeep]
      have hstep : ∀ (a : Bool) s', Answers s (.prune i) a s' → Live w id s' := by
        rintro a s' ⟨r, hr, rfl⟩
        exact hs.setRelease hkeep.1 (fun h => hkeep.2 (hprev i h).symm) hr.there
      exact wp_must (.prune i) (fun ok => ok) (fun a s' h => (hstep a s' h).kept hid) (fun a s' h _ => hstep a s' h)
        fun _ _ _ _ => trivial
    · rw [if_neg hkeep]
      exact hs

include hid in
theorem wp_prune (hids : ∀ i, w.entry .venv = .link (venvPath i) → IsId i) (hs : Live w id s) :
    prune.wp Answers (Kept w id) (fun _ => Live w id) (Ends w) s := by
  have hlook : ∀ n, (Prog.ask (Cmd.look n) : Play Entry).wp Answers (Kept w id)
      (fun e s' => e = s.entry n ∧ s' = s) (Ends w) s := by
    rintro n e s' ⟨rfl, rfl⟩
    exact ⟨hs.kept hid, rfl, rfl⟩
  refine wp_then (hlook .venv) fun live s₁ h₁ => ?_
  rw [h₁.1, h₁.2]
  refine wp_then (hlook .previous) fun prev s₂ h₂ => ?_
  rw [h₂.1, h₂.2]
  refine wp_then (P := fun _ s' => s' = s) ?_ fun ids s' h => ?_
  · rintro ids s' ⟨-, rfl⟩
    exact ⟨hs.kept hid, rfl⟩
  · rw [h, hs.venv, keeps_venvPath hid, hs.previous]
    refine wp_pruneAll hid (fun i hi => ?_) ids hs
    rw [hi]
    exact keeps_venvPath (hids i hi)

/-! ### Runs -/

include hid in
theorem wp_finish (v : Vars) (hs : Live w id s) :
    (finish v).wp Answers (Kept w id) (fun _ => Live w id) (Ends w) s := by
  have hrest : ∀ (s' : Guest ρ) rest, Live w id s' → Live w id { s' with rest } := fun _ rest h => h.task rest
  have hkept : ∀ s', Live w id s' → Kept w id s' := fun _ h => h.kept hid
  have htask : ∀ (t : Task) s', Live w id s' →
      (task t).wp Answers (Kept w id) (fun _ => Live w id) (Ends w) s' := fun t s' h =>
    wp_task t hrest hkept (fun _ _ => trivial) h
  refine wp_then (htask .recordInstalled s hs) fun _ s₁ h₁ => ?_
  refine wp_then (htask .removeStage s₁ h₁) fun _ s₂ h₂ => ?_
  refine wp_then (wp_tasks Task.copyUnit hrest hkept (fun _ _ => trivial) v.units h₂) fun _ s₃ h₃ => ?_
  refine wp_then (htask .daemonReload s₃ h₃) fun _ s₄ h₄ => ?_
  cases v.startUnits with
  | true =>
    refine wp_then (wp_enabled hkept (fun _ _ => trivial) v.units h₄) fun units s₅ h₅ => ?_
    exact wp_tasks Task.restart hrest hkept (fun _ _ => trivial) units h₅
  | false => exact h₄

include hgood hid hfresh in
theorem wp_installRelease (v : Vars) :
    (installRelease v id).wp Answers (Kept w id) (fun _ => Live w id) (Ends w) w := by
  have hids : ∀ i, w.entry .venv = .link (venvPath i) → IsId i := by
    intro i hi
    obtain ha | ⟨i', hi', he, -⟩ := hgood.live
    · rw [ha] at hi
      cases hi
    · rw [he] at hi
      exact venvPath_inj (Entry.link.inj hi) ▸ hi'
  refine wp_then (wp_stage hgood hfresh) fun _ s₁ h₁ => ?_
  refine wp_then (wp_buildBlock hgood hfresh h₁) fun _ s₂ h₂ => ?_
  refine wp_then (wp_flip hgood hid hfresh h₂.1 h₂.2) fun _ s₃ h₃ => ?_
  refine wp_then (wp_liveBlock hid h₃) fun _ s₄ h₄ => ?_
  exact wp_then (wp_prune hid hids h₄) fun _ s₅ h₅ => wp_finish hid v h₅

end

/-- The release that a run installs, if its preconditions hold. -/
def Vars.releaseId (v : Vars) : Option Str := v.source.map fun source => ComponentInstall.releaseId source v.stamp

/-- The preconditions change nothing. -/
theorem wp_preconditions (v : Vars) {I : Guest ρ → Prop} (hI : I w) :
    (preconditions v).wp Answers I (fun source s => v.source = some source ∧ s = w) (Ends w) w := by
  rintro found _ rfl
  refine ⟨hI, ?_⟩
  show ((if found = some true then _ else _ : Play Str)).wp Answers I _ _ _
  split
  · rintro pin _ rfl
    refine ⟨hI, ?_⟩
    show ((if pin.map trim = some v.token then _ else _ : Play Str)).wp Answers I _ _ _
    split
    · cases hsource : v.source with
      | none => exact rfl
      | some source =>
        show ((if _ then _ else _ : Play Str)).wp Answers I _ _ _
        split
        · exact ⟨rfl, rfl⟩
        · exact rfl
    · exact rfl
  · exact rfl

/-- What a run keeps, and how it ends. -/
theorem wp_install (v : Vars) (hgood : Good w) (hfresh : ∀ id, v.releaseId = some id → w.releases id = .absent) :
    (install v).wp Answers
      (fun s => Good s ∧ ∀ j, s.releases j ≠ .absent → v.releaseId = some j ∨ w.releases j ≠ .absent)
      (fun _ _ => True) (Ends w) w := by
  refine wp_then (wp_preconditions v ⟨hgood, fun j hj => .inr hj⟩) ?_
  rintro source s ⟨hsource, rfl⟩
  have hrelease : v.releaseId = some (releaseId source v.stamp) := by simp [Vars.releaseId, hsource]
  have hrun := wp_installRelease hgood (isId_releaseId source v.stamp) (hfresh _ hrelease) v
  refine wp_weaken (fun s' hs' => ⟨hs'.good, fun j hj => ?_⟩) _ s (wp_mono (fun _ _ _ => trivial) (fun _ _ h => h) _ s hrun)
  refine (hs'.known j hj).imp_left fun hjd => ?_
  rw [hjd]
  exact hrelease

/-- The component's root as a history may start: there is nothing, or `venv`
links to a release that passed its selfcheck, and `previous`, if it is there,
to one that is there. -/
inductive Starts (w : Guest ρ) : Prop
  | empty (hentry : ∀ n, w.entry n = .absent) (hreleases : ∀ id, w.releases id = .absent)
  | links (hlive : LinksTo w (· = .checked) (w.entry .venv))
      (hprevious : w.entry .previous = .absent ∨ LinksTo w (· ≠ .absent) (w.entry .previous))

/-- The id of a run's release is that of no other install. -/
def Fresh (w₀ : Guest ρ) (ids : List Str) (v : Vars) : Prop :=
  ∀ id, v.releaseId = some id → id ∉ ids ∧ w₀.releases id = .absent

/-- Run after run, each to its end or cut off, and the ids of their releases. -/
inductive History (w₀ : Guest ρ) : List Str → Guest ρ → Prop
  | start : History w₀ [] w₀
  | run {ids : List Str} {w w' : Guest ρ} {v : Vars} {p : Play Unit} : History w₀ ids w → Fresh w₀ ids v →
      Reach Answers (install v, w) (p, w') → History w₀ (v.releaseId.toList ++ ids) w'

theorem Starts.good (h : Starts w) : Good w := by
  cases h with
  | empty hentry hreleases => exact ⟨.inl (hentry .venv), .inl (hentry .previous), fun _ => hentry .previous⟩
  | links hlive hprevious =>
    refine ⟨.inr hlive, hprevious, fun h => ?_⟩
    obtain ⟨i, -, he, -⟩ := hlive
    rw [h] at he
    cases he

theorem Fresh.absent {w₀ : Guest ρ} {ids : List Str} {v : Vars} (hfresh : Fresh w₀ ids v)
    (hknown : ∀ j, w.releases j ≠ .absent → j ∈ ids ∨ w₀.releases j ≠ .absent) :
    ∀ id, v.releaseId = some id → w.releases id = .absent := by
  intro id hid
  by_contra hne
  obtain hmem | hold := hknown id hne
  · exact (hfresh id hid).1 hmem
  · exact hold (hfresh id hid).2

/-- A history keeps its guest good, and has no releases but its own. -/
theorem History.good {w₀ : Guest ρ} (hstart : Starts w₀) {ids : List Str} (h : History w₀ ids w) :
    Good w ∧ ∀ j, w.releases j ≠ .absent → j ∈ ids ∨ w₀.releases j ≠ .absent := by
  induction h with
  | start => exact ⟨hstart.good, fun j hj => .inr hj⟩
  | run hhist hfresh hreach ih =>
    rename_i ids w w' v p
    obtain ⟨hgood, hknown⟩ := ih
    have hrun := wp_install v hgood (hfresh.absent hknown)
    obtain ⟨hgood', hknown'⟩ := (wp_reach hreach ⟨hgood, fun j hj => .inr hj⟩ hrun).1
    refine ⟨hgood', fun j hj => ?_⟩
    obtain hid | hj := hknown' j hj
    · exact .inl (by simp [hid])
    · exact (hknown j hj).imp_left fun hmem => by simp [hmem]

/-- **A broken release is never live.** At every moment of a run after such a
history, `venv` is absent or links to a release whose selfcheck succeeded in
place, and `previous` is absent or links to one that is there. A run whose
rescue has completed leaves `venv` as it was. What is pruned is neither live
nor the previous one, and a run that fails a precondition has changed nothing. -/
theorem no_broken_release_live {w₀ w w' : Guest ρ} {ids : List Str} {v : Vars} {p : Play Unit}
    (hstart : Starts w₀) (hhist : History w₀ ids w) (hfresh : Fresh w₀ ids v)
    (hreach : Reach Answers (install v, w) (p, w')) :
    (w'.entry .venv ≠ .absent → ∃ id, w'.entry .venv = .link (venvPath id) ∧ w'.releases id = .checked) ∧
      (w'.entry .previous ≠ .absent →
        ∃ id, w'.entry .previous = .link (venvPath id) ∧ w'.releases id ≠ .absent) ∧
      (p = .raise .buildFailed ∨ p = .raise .liveFailed → w'.entry .venv = w.entry .venv) ∧
      (∀ id k, p = .call (.prune id) k →
        w'.entry .venv ≠ .link (venvPath id) ∧ w'.entry .previous ≠ .link (venvPath id)) ∧
      (p = .raise .precondition → w' = w) := by
  obtain ⟨hgood, hknown⟩ := hhist.good hstart
  have hrun := wp_install v hgood (hfresh.absent hknown)
  obtain ⟨hkept, hrest⟩ := wp_reach hreach ⟨hgood, fun j hj => .inr hj⟩ hrun
  obtain ⟨⟨hlive, hprevious, -⟩, -⟩ := hkept
  refine ⟨fun hne => ?_, fun hne => ?_, ?_, ?_, ?_⟩
  · obtain ⟨id, -, he, hc⟩ := hlive.resolve_left hne
    exact ⟨id, he, hc⟩
  · obtain ⟨id, -, he, hc⟩ := hprevious.resolve_left hne
    exact ⟨id, he, hc⟩
  · rintro (rfl | rfl)
    · exact hrest
    · exact hrest
  · rintro id k rfl
    -- if it were linked, the guest without it would not be good
    have hpruned : Answers w' (.prune id) true (w'.setRelease id .absent) := ⟨.absent, rfl, rfl⟩
    obtain ⟨⟨hlive', hprevious', -⟩, -⟩ := (hrest true _ hpruned).1
    have hno : ∀ {q : Release → Prop} {e : Entry}, ¬ q .absent → e = .absent ∨ LinksTo (w'.setRelease id .absent) q e →
        e ≠ .link (venvPath id) := by
      intro q e hq h he
      obtain ha | hl := h
      · rw [ha] at he
        cases he
      · exact hl.ne (setRelease_self .absent) hq he
    exact ⟨hno (by simp) hlive', hno (by simp) hprevious'⟩
  · rintro rfl
    exact hrest

end

/-- Answers where all goes well until the selfcheck through the live path. -/
def liveFails (s : Guest Unit) : (c : Cmd) → Ans c × Guest Unit
  | .statPin => (some true, s)
  | .slurpPin => (some "cpython".toList, s)
  | .task _ => (true, s)
  | .build id .remove => (true, s.setRelease id .absent)
  | .build id .mkdir => (true, s.setRelease id .unchecked)
  | .build id .venv => (true, s.setRelease id .unchecked)
  | .build id (.pipRequirements _) => (true, s.setRelease id .unchecked)
  | .build id .pipWheel => (true, s.setRelease id .unchecked)
  | .nonEmpty _ => (false, s)
  | .gccFor _ _ => (none, s)
  | .selfcheck id => if s.releases id = .absent then (false, s) else (true, s.setRelease id .checked)
  | .look n => (s.entry n, s)
  | .removeLegacy => (true, s.setEntry .venv .absent)
  | .removeVenv => (true, s.setEntry .venv .absent)
  | .clearTemps => (true, { s with temp := fun _ => .absent })
  | .link n target => (true, if s.temp n = .absent then s.setTemp n (.link target) else s)
  | .rename n =>
    if s.temp n = .absent then (false, s) else (true, (s.setEntry n (s.temp n)).setTemp n .absent)
  | .liveSelfcheck => (false, s)
  | .listReleases => ([], s)
  | .prune id => (true, s.setRelease id .absent)
  | .isEnabled _ => ([], s)

theorem answers_liveFails (s : Guest Unit) (c : Cmd) : Answers s c (liveFails s c).1 (liveFails s c).2 := by
  cases c with
  | statPin | slurpPin | nonEmpty | gccFor | liveSelfcheck | isEnabled => exact rfl
  | task t => exact ⟨s.rest, rfl⟩
  | build id b => cases b <;> exact ⟨_, rfl, rfl⟩
  | prune id => exact ⟨_, rfl, rfl⟩
  | look n => exact ⟨rfl, rfl⟩
  | removeLegacy | removeVenv => exact rfl
  | clearTemps => exact ⟨_, fun _ _ => rfl, rfl⟩
  | listReleases => exact ⟨fun id hid => absurd hid List.not_mem_nil, rfl⟩
  | link n target =>
    show _ = if true ∧ s.temp n = .absent then _ else _
    simp only [true_and]
    rfl
  | selfcheck id =>
    by_cases h : s.releases id = .absent
    · simp [liveFails, h, Answers]
    · simp [liveFails, h, Answers]
  | rename n =>
    by_cases h : s.temp n = .absent
    · simp [liveFails, h, Answers]
    · simp [liveFails, h, Answers]

/-- A root where nothing is installed. -/
def emptyRoot : Guest Unit := ⟨fun _ => .absent, fun _ => .absent, fun _ => .absent, ()⟩

/-- The variables of a first install. -/
def firstVars : Vars where
  token := "cpython".toList
  componentName := some "mqro".toList
  componentArtifacts := .ofList [("mqro".toList, "/build/mqro/1.0".toList)]
  labStageDir := some "/var/tmp/lab".toList
  stamp := ⟨"20260102T030405Z".toList, by decide⟩
  units := []
  startUnits := false

theorem first_install_taken_off : ((install firstVars).exec liveFails emptyRoot).2.entry .venv = .absent :=
  (no_broken_release_live (v := firstVars) (.empty (fun _ => rfl) fun _ => rfl) .start
    (fun _ _ => ⟨List.not_mem_nil, rfl⟩)
    (reach_exec (J := fun _ => True) (fun s c _ => ⟨answers_liveFails s c, trivial⟩) (install firstVars) emptyRoot
      trivial)).2.2.1 (.inr (by rfl))

end ComponentInstall
end Lab
end MqResiliency
