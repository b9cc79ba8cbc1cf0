/-
# When the controlled cutover is safe and honest

The cutover of `pcmk-dr-cutover.sh` should promote the TO copy only after FROM
was demoted and TO observed connected and UpToDate (`Lossless`), and exit 0
only with the queue manager Running at TO and not at FROM. It does in every run
whose steps are `Sound`: the status that it prints without judging it showed
the copy in sync, what step 6 masks succeeded, and the clusters had settled when
the final status was printed, on an inventory whose patterns name hosts.

Each step's script keeps what the steps before it have reached and, if it exits
0 on some host, adds its own (`wp_run`).
-/
import MqResiliency.Switch.Pcmk

namespace MqResiliency
namespace Pcmk

open Prog Py

/-! ### What the cutover promises -/

/-- The site's copy was demoted. -/
def Demoted (s : Site) (e : Event) : Prop :=
  e.cmd.site = s ∧ e.cmd.what = .drbdSecondary ∧ e.ans = some 0

/-- The site's copy was seen Connected and UpToDate. -/
def Observed (s : Site) (e : Event) : Prop :=
  e.cmd.what = .drbdStatus ∧ e.ans = some 0 ∧ e.before.connected = true ∧ e.before.disk s = .upToDate

/-- `drbdadm primary mqlun` at the site. -/
def Promotes (s : Site) (e : Event) : Prop := e.cmd.site = s ∧ e.cmd.what = .drbdPrimary

/-- TO is promoted only after FROM was demoted and TO observed. -/
def Lossless (src dst : Site) : List Event → Prop :=
  Obeys fun l e => Promotes dst e → (∃ e' ∈ l, Demoted src e') ∧ ∃ e' ∈ l, Observed dst e'

/-- The queue manager is Running at TO and not at FROM. -/
def Switched (src dst : Site) (w : World) : Prop := w.running dst = true ∧ w.running src = false

/-! ### The steps that keep it -/

/-- The site's cluster has all that the queue manager needs. -/
def Ready (w : World) (s : Site) : Prop :=
  w.role s = .primary ∧ w.attached s = true ∧ w.standby s = false ∧ w.disabled s = false ∧
    ∀ part, w.member s part = true

/-- Pacemaker runs the queue manager where it can. -/
def Settled (w : World) : Prop := ∀ s, w.running s = true ↔ Ready w s

/-- A step on which nothing that the script leaves unjudged goes wrong. -/
structure Sound (src dst : Site) (s : State) (c : Cmd) (a : Ans c) (s' : State) : Prop where
  /-- Replication has caught up when the script prints its state. -/
  caughtUp : c.site = src → c.what = .drbdStatus →
    s.world.connected = true ∧ s.world.disk dst = .upToDate
  unstandby : c.site = dst → c.what = .unstandbyAll → a = some 0 ∨ s.world.standby dst = false
  /-- The group is there whole and found, or is not there and not disabled. -/
  group : c.site = dst → c.what = .groupStatus →
    (a = some 0 → ∀ part, s.world.member dst part = true) ∧ (a ≠ some 0 → s.world.disabled dst = false)
  created : c.site = dst → ∀ part arg, part ≠ .qm → c.what = .create part arg → a = some 0
  settled : c.what = .report → Settled s'.world

/-- The environment on such steps. -/
def soundEnv (src dst : Site) : Env State Cmd Ans := restrict env (Sound src dst)

/-- The patterns that the cutover relies on name hosts. -/
def Named (inv : Inventory) (src dst : Site) : Prop :=
  inv (.san src) ≠ [] ∧ inv (.san dst) ≠ [] ∧ inv (.pcmk dst) ≠ [] ∧ inv (.first dst) ≠ []

section
variable {src dst : Site} {s s' : State} {c : Cmd} {a : Ans c}

/-! ### What one command leaves as it was -/

theorem Answers.drift {w w' : World} {a : Option ℕ} (h : Answers w c a w') :
    Drift c (effect w c) w' ∨ Drift c w w' := by
  rcases h.1 with hd | ⟨-, hd⟩
  · exact Or.inl hd
  · exact Or.inr hd

theorem Answers.done {w w' : World} {a : Option ℕ} (h : Answers w c a w') (ha : a = some 0) :
    Drift c (effect w c) w' := by
  rcases h.1 with hd | ⟨hne, -⟩
  · exact hd
  · exact absurd ha hne

/-- A role changes by `drbdadm` only. -/
theorem role_keep {w w' : World} {a : Option ℕ} {t : Site} {r : DrbdRole} (h : Answers w c a w')
    (hr : w.role t = r) (hc : c.site = t → c.what.role.getD r = r) : w'.role t = r := by
  rcases h.drift with hd | hd
  · rw [hd.role]
    by_cases ht : t = c.site
    · subst ht
      simp only [effect, Function.update_self, hr]
      exact hc rfl
    · simp only [effect, Function.update_of_ne ht, hr]
  · rw [hd.role, hr]

theorem standby_keep {w w' : World} {a : Option ℕ} {t : Site} (h : Answers w c a w')
    (hr : w.standby t = false) (hc : c.site = t → c.what ≠ .standbyAll) : w'.standby t = false := by
  rcases h.drift with hd | hd
  · rw [hd.standby]
    by_cases ht : t = c.site
    · subst ht
      simp only [effect, Function.update_self, hr]
      have hne := hc rfl
      cases hw : c.what <;> simp_all [What.standby]
    · simp only [effect, Function.update_of_ne ht, hr]
  · rw [hd.standby, hr]

/-- Members are only added. -/
theorem member_keep {w w' : World} {a : Option ℕ} {t : Site} {part : Part} (h : Answers w c a w')
    (hr : w.member t part = true) : w'.member t part = true := by
  rcases h.drift with hd | hd
  · rw [hd.member]
    by_cases ht : t = c.site
    · subst ht
      simp only [effect, Function.update_self, hr, Bool.or_true]
    · simp only [effect, Function.update_of_ne ht, hr]
  · rw [hd.member, hr]

/-- The group is only enabled. -/
theorem disabled_keep {w w' : World} {a : Option ℕ} {t : Site} (h : Answers w c a w')
    (hr : w.disabled t = false) : w'.disabled t = false := by
  rcases h.drift with hd | hd
  · rw [hd.disabled]
    by_cases ht : t = c.site
    · subst ht
      simp only [effect, Function.update_self, hr, Bool.false_and]
    · simp only [effect, Function.update_of_ne ht, hr]
  · rw [hd.disabled, hr]

theorem attached_keep {w w' : World} {a : Option ℕ} {t : Site} (h : Answers w c a w')
    (hr : w.attached t = true) (hc : c.site = t → c.what.exports = false) : w'.attached t = true := by
  rcases h.drift with hd | hd
  · exact hd.attached t (fun ht => hc ht.symm) hr
  · exact hd.attached t (fun ht => hc ht.symm) hr

/-! ### What the steps reach -/

/-- TO was observed in sync. -/
def IsObserved (dst : Site) (s : State) : Prop := ∃ e ∈ s.log, Observed dst e

/-- FROM was demoted, and is Secondary. -/
def IsDemoted (src : Site) (s : State) : Prop :=
  (∃ e ∈ s.log, Demoted src e) ∧ s.world.role src = .secondary

/-- TO's cluster may run the whole group. -/
def IsStarted (dst : Site) (s : State) : Prop :=
  s.world.standby dst = false ∧ s.world.disabled dst = false ∧ ∀ part, s.world.member dst part = true

/-- Such commands keep `P` on the steps of `soundEnv`. -/
def Stable (src dst : Site) (K : Cmd → Prop) (P : State → Prop) : Prop :=
  ∀ s c a s', K c → P s → soundEnv src dst s c a s' → P s'

theorem Stable.and {K : Cmd → Prop} {P G : State → Prop} (hP : Stable src dst K P)
    (hG : Stable src dst K G) : Stable src dst K fun s => P s ∧ G s :=
  fun s c a s' hK h he => ⟨hP s c a s' hK h.1 he, hG s c a s' hK h.2 he⟩

theorem Stable.mono {K K' : Cmd → Prop} {P : State → Prop} (hP : Stable src dst K P)
    (h : ∀ c, K' c → K c) : Stable src dst K' P := fun s c a s' hK => hP s c a s' (h c hK)

theorem log_mem {e : Event} (he : soundEnv src dst s c a s') (h : e ∈ s.log) : e ∈ s'.log := by
  rw [he.1.2]
  exact List.mem_append_left _ h

theorem stable_lossless : Stable src dst (fun c => ¬ (c.site = dst ∧ c.what = .drbdPrimary))
    fun s => Lossless src dst s.log := by
  intro s c a s' hK h he
  rw [he.1.2]
  exact (obeys_concat _).mpr ⟨h, fun hp => absurd hp hK⟩

theorem stable_observed : Stable src dst (fun _ => True) (IsObserved dst) := by
  rintro s c a s' - ⟨e, hm, ho⟩ he
  exact ⟨e, log_mem he hm, ho⟩

theorem stable_demoted : Stable src dst (fun c => ¬ (c.site = src ∧ c.what = .drbdPrimary)) (IsDemoted src) := by
  rintro s c a s' hK ⟨⟨e, hm, hd⟩, hr⟩ he
  refine ⟨⟨e, log_mem he hm, hd⟩, role_keep he.1.1 hr fun hs => ?_⟩
  have hne : c.what ≠ .drbdPrimary := fun hp => hK ⟨hs, hp⟩
  cases hw : c.what <;> simp_all [What.role]

theorem stable_promoted : Stable src dst (fun c => ¬ (c.site = dst ∧ c.what = .drbdSecondary))
    fun s => s.world.role dst = .primary := by
  intro s c a s' hK hr he
  refine role_keep he.1.1 hr fun hs => ?_
  have hne : c.what ≠ .drbdSecondary := fun hp => hK ⟨hs, hp⟩
  cases hw : c.what <;> simp_all [What.role]

theorem stable_attached : Stable src dst (fun c => ¬ (c.site = dst ∧ c.what.exports = true))
    fun s => s.world.attached dst = true := by
  intro s c a s' hK hr he
  exact attached_keep he.1.1 hr fun hs => Bool.eq_false_iff.mpr fun hx => hK ⟨hs, hx⟩

theorem stable_started : Stable src dst (fun c => ¬ (c.site = dst ∧ c.what = .standbyAll)) (IsStarted dst) := by
  rintro s c a s' hK ⟨hs, hd, hm⟩ he
  exact ⟨standby_keep he.1.1 hs fun ht hw => hK ⟨ht, hw⟩, disabled_keep he.1.1 hd,
    fun part => member_keep he.1.1 (hm part)⟩

/-! ### One call -/

/-- On sound steps the program keeps `Lossless` and returns in `Q`. -/
abbrev Keeps (src dst : Site) {α : Type} (p : Sh α) (Q : α → State → Prop) (s : State) : Prop :=
  p.wp (soundEnv src dst) (fun s => Lossless src dst s.log) Q (fun _ _ => True) s

variable {α : Type} {site : Site} {host : Str} {what : What} {K : Cmd → Prop}

theorem issues_sh (h : K ⟨site, host, what⟩) : (sh site host what).Issues K := by
  refine issues_bind (issues_ask h) fun a => ?_
  cases a <;> trivial

theorem issues_masked : ∀ {whats : List What}, (∀ w ∈ whats, K ⟨site, host, w⟩) →
    (masked site host whats).Issues K
  | [], _ => trivial
  | w :: _, h => issues_bind (issues_sh (h w List.mem_cons_self)) fun _ =>
      issues_masked fun w' hw' => h w' (List.mem_cons_of_mem _ hw')

theorem issues_onHosts {script : Str → Sh ℕ} (h : ∀ host, (script host).Issues K) :
    ∀ hosts, (onHosts script hosts).Issues K
  | [] => trivial
  | host :: hosts => by
    refine issues_bind (issues_tryCatch (issues_bind (h host) fun _ => trivial) fun e => ?_) fun rc =>
      issues_bind (issues_onHosts h hosts) fun rcs => trivial
    cases e <;> trivial

/-- Such commands keep what the script has reached. -/
theorem keeps_of_issues {P : State → Prop} {p : Sh α} (hp : p.Issues K) (hP : Stable src dst K P)
    (hlaw : ∀ s, P s → Lossless src dst s.log) (hs : P s) :
    p.wp (soundEnv src dst) (fun s => Lossless src dst s.log) (fun _ => P) (fun _ => P) s := by
  refine wp_of_issues (fun s c a s' hK h he => ?_) hp s hs
  have hP' := hP s c a s' hK h he
  exact ⟨hlaw s' hP', hP'⟩

theorem status_cons (rc : Option ℕ) (rcs : List (Option ℕ)) (h : status (rc :: rcs) = 0) : rc = some 0 := by
  unfold status at h
  split at h
  · exact absurd h (by decide)
  · split at h
    · exact absurd h (by decide)
    · rename_i hany
      by_contra hne
      exact hany (by simp [hne])

/-- **A judged call**: it keeps what its commands keep, and where it names a
host and exits 0 it reaches what its script reaches by exiting 0. -/
theorem keeps_run {inv : Inventory} {pat : Pattern} {script : Site → Str → Sh ℕ} {P G : State → Prop}
    {Q : Unit → State → Prop} (hiss : ∀ host, (script pat.site host).Issues K)
    (hP : Stable src dst K P) (hG : Stable src dst K G) (hlaw : ∀ s, P s → Lossless src dst s.log)
    (hget : ∀ host s, P s → Keeps src dst (script pat.site host) (fun rc s' => rc = 0 → G s') s)
    (hne : inv pat ≠ []) (hs : P s) (hQ : ∀ s', P s' → G s' → Q () s') :
    Keeps src dst (run inv pat script) Q s := by
  obtain ⟨host, hosts, hinv⟩ := List.exists_cons_of_ne_nil hne
  have hrest : ∀ (rc : Option ℕ) (s : State), P s → (rc = some 0 → G s) →
      Keeps src dst (onHosts (script pat.site) hosts) (fun rcs s' => P s' ∧ (rc = some 0 → G s')) s := by
    intro rc s hs hrc
    have hall := issues_onHosts hiss hosts
    by_cases h0 : rc = some 0
    · have hk := keeps_of_issues hall (hP.and hG) (fun s h => hlaw s h.1) (s := s) ⟨hs, hrc h0⟩
      exact wp_mono (fun _ _ h => ⟨h.1, fun _ => h.2⟩) (fun _ _ _ => trivial) _ _ hk
    · have hk := keeps_of_issues hall hP hlaw hs
      exact wp_mono (fun _ _ h => ⟨h, fun h' => absurd h' h0⟩) (fun _ _ _ => trivial) _ _ hk
  have hend : ∀ (rc : Option ℕ) (s : State), P s → (rc = some 0 → G s) →
      Keeps src dst (do
        let rcs ← onHosts (script pat.site) hosts
        pure (rc :: rcs)) (fun rcs s' => if status rcs = 0 then Q () s' else True) s := by
    intro rc s hs hrc
    unfold Keeps
    rw [wp_bind]
    refine wp_mono (fun rcs s' h => ?_) (fun _ _ _ => trivial) _ _ (hrest rc s hs hrc)
    rw [wp_pure]
    split
    · rename_i hst
      exact hQ s' h.1 (h.2 (status_cons rc rcs hst))
    · trivial
  unfold Keeps run
  rw [hinv, wp_bind]
  unfold onHosts
  rw [wp_bind, wp_tryCatch, wp_bind]
  have hfirst := wp_and _ s (hget host s hs) (keeps_of_issues (hiss host) hP hlaw hs)
  refine wp_mono (fun rc s' h => ?_) (fun e s' h => ?_) _ _ hfirst
  · refine wp_mono (fun rcs s'' h' => ?_) (fun _ _ _ => trivial) _ _
      (hend (some rc) s' h.2 fun hrc => h.1 (Option.some.inj hrc))
    split
    · rename_i hst
      rwa [if_pos hst] at h'
    · trivial
  · cases e with
    | exit n => trivial
    | lost =>
      change Prog.wp _ _ (onHosts (script pat.site) hosts >>= fun rcs => pure (none :: rcs)) _ _ s'
      refine wp_mono (fun rcs s'' h' => ?_) (fun _ _ _ => trivial) _ _
        (hend none s' h.2 fun hrc => absurd hrc (by simp))
      split
      · rename_i hst
        rwa [if_pos hst] at h'
      · trivial

/-! ### The steps -/

theorem keeps_sh {Q : ℕ → State → Prop} (hI : ∀ a s', soundEnv src dst s ⟨site, host, what⟩ a s' →
    Lossless src dst s'.log ∧ ∀ rc, a = some rc → Q rc s') : Keeps src dst (sh site host what) Q s := by
  unfold Keeps sh
  rw [wp_bind, wp_ask]
  intro a s' he
  obtain ⟨hl, hQ⟩ := hI a s' he
  refine ⟨hl, ?_⟩
  cases a with
  | none => trivial
  | some rc => exact hQ rc rfl

/-- The commands of a script keep `P` on the way to its last one. -/
theorem keeps_masked {whats : List What} {P : State → Prop} {Q : Unit → State → Prop}
    (hP : Stable src dst (fun c => c.site = site ∧ c.what ∈ whats) P)
    (hlaw : ∀ s, P s → Lossless src dst s.log) (hs : P s) (hQ : ∀ s', P s' → Q () s') :
    Keeps src dst (masked site host whats) Q s :=
  wp_mono (fun _ => hQ) (fun _ _ _ => trivial) _ _
    (keeps_of_issues (issues_masked fun _ hw => ⟨rfl, hw⟩) hP hlaw hs)

/-- 2. The printed status of a sound step shows TO in sync. -/
theorem keeps_confirm (hs : Lossless src dst s.log) :
    Keeps src dst (confirm src host) (fun rc s' => rc = 0 → IsObserved dst s') s := by
  refine keeps_sh fun a s' he => ⟨stable_lossless _ _ _ _ (fun hp => by simp at hp) hs he, fun rc ha hrc => ?_⟩
  obtain ⟨hc, hd⟩ := he.2.caughtUp rfl rfl
  refine ⟨⟨s.world, ⟨src, host, .drbdStatus⟩, a⟩, ?_, rfl, by rw [ha, hrc], hc, hd⟩
  rw [he.1.2]
  exact List.mem_append_right _ (List.mem_singleton.mpr rfl)

theorem keeps_demote (hs : Lossless src dst s.log) :
    Keeps src dst (demote src host) (fun rc s' => rc = 0 → IsDemoted src s') s := by
  unfold Keeps demote
  rw [wp_bind]
  refine keeps_masked (stable_lossless.mono ?_) (fun _ h => h) hs fun s₁ hs₁ => ?_
  · rintro c ⟨-, hw⟩ ⟨-, hp⟩
    simp [hp] at hw
  refine keeps_sh fun a s' he => ⟨stable_lossless _ _ _ _ (fun hp => by simp at hp) hs₁ he, fun rc ha hrc => ?_⟩
  have ha' : a = some 0 := by rw [ha, hrc]
  refine ⟨⟨⟨s₁.world, ⟨src, host, .drbdSecondary⟩, a⟩, ?_, rfl, rfl, ha'⟩, ?_⟩
  · rw [he.1.2]
    exact List.mem_append_right _ (List.mem_singleton.mpr rfl)
  · rw [(he.1.1.done ha').role]
    simp [effect, What.role]

/-- TO may be promoted now. -/
def MayPromote (src dst : Site) (s : State) : Prop :=
  (Lossless src dst s.log ∧ IsObserved dst s) ∧ IsDemoted src s

theorem stable_mayPromote :
    Stable src dst (fun c => ¬ (c.site = src ∧ c.what = .drbdPrimary)) (MayPromote src dst) := by
  rintro s c a s' hK ⟨⟨hl, ho⟩, hd⟩ he
  refine ⟨⟨?_, stable_observed _ _ _ _ trivial ho he⟩, stable_demoted _ _ _ _ hK hd he⟩
  rw [he.1.2]
  exact (obeys_concat _).mpr ⟨hl, fun _ => ⟨hd.1, ho⟩⟩

theorem keeps_promote (hne : src ≠ dst) (hs : MayPromote src dst s) :
    Keeps src dst (promote dst host) (fun rc s' => rc = 0 → s'.world.role dst = .primary) s := by
  have hK : ∀ {c : Cmd}, c.site = dst → ¬ (c.site = src ∧ c.what = .drbdPrimary) :=
    fun hc h => hne (h.1.symm.trans hc)
  unfold Keeps promote
  rw [wp_bind]
  refine keeps_sh fun a s₁ he => ?_
  have hs₁ : MayPromote src dst s₁ := stable_mayPromote _ _ _ _ (hK rfl) hs he
  refine ⟨hs₁.1.1, fun rc ha => ?_⟩
  split
  · rename_i hrc
    have hrole : s₁.world.role dst = .primary := by
      rw [(he.1.1.done (by rw [ha, hrc])).role]
      simp [effect, What.role]
    refine keeps_sh fun a' s₂ he' => ⟨(stable_mayPromote _ _ _ _ (hK rfl) hs₁ he').1.1, fun _ _ _ => ?_⟩
    exact stable_promoted _ _ _ _ (fun h => by simp at h) hrole he'
  · rename_i hrc
    exact fun h => absurd h hrc

theorem keeps_attach (hs : Lossless src dst s.log) :
    Keeps src dst (attach dst host) (fun rc s' => rc = 0 → s'.world.attached dst = true) s := by
  have hmask : ∀ {whats : List What}, What.drbdPrimary ∉ whats →
      Stable src dst (fun c => c.site = dst ∧ c.what ∈ whats) fun s => Lossless src dst s.log :=
    fun hn => stable_lossless.mono fun c hc hp => hn (hp.2 ▸ hc.2)
  unfold Keeps attach
  rw [wp_bind]
  refine keeps_masked (hmask (by simp)) (fun _ h => h) hs fun s₁ hs₁ => ?_
  rw [wp_bind]
  refine keeps_sh fun a s₂ he₂ => ?_
  have hs₂ := stable_lossless _ _ _ _ (fun hp => by simp at hp) hs₁ he₂
  refine ⟨hs₂, fun rc _ => ?_⟩
  rw [wp_bind]
  refine keeps_masked (hmask (by split <;> simp)) (fun _ h => h) hs₂ fun s₃ hs₃ => ?_
  refine keeps_sh fun a s' he => ⟨stable_lossless _ _ _ _ (fun hp => by simp at hp) hs₃ he, fun rc ha hrc => ?_⟩
  have hatt : s₃.world.attached dst = true := he.1.1.2 rfl (by rw [ha, hrc])
  exact stable_attached _ _ _ _ (fun h => by simp [What.exports] at h) hatt he

/-- The group may run at TO, with these members so far. -/
def HasMembers (dst : Site) (parts : List Part) (s : State) : Prop :=
  s.world.standby dst = false ∧ s.world.disabled dst = false ∧ ∀ part ∈ parts, s.world.member dst part = true

theorem stable_hasMembers (parts : List Part) :
    Stable src dst (fun c => c.what ≠ .standbyAll) (HasMembers dst parts) := by
  rintro s c a s' hK ⟨hs, hd, hm⟩ he
  exact ⟨standby_keep he.1.1 hs fun _ hw => hK hw, disabled_keep he.1.1 hd,
    fun part hp => member_keep he.1.1 (hm part hp)⟩

theorem hasMembers_all {s : State} (h : HasMembers dst [.qm, .vipExt, .vip, .fs] s) : IsStarted dst s :=
  ⟨h.1, h.2.1, fun part => h.2.2 part (by cases part <;> decide)⟩

/-- A member whose creation succeeds is there. -/
theorem keeps_create {part : Part} {arg : Str} {parts : List Part} {Q : ℕ → State → Prop}
    (hl : Lossless src dst s.log) (hs : HasMembers dst parts s)
    (hQ : ∀ rc s', (part ≠ .qm ∨ rc = 0 → HasMembers dst (part :: parts) s') →
      Lossless src dst s'.log → Q rc s') :
    Keeps src dst (sh dst host (.create part arg)) Q s := by
  refine keeps_sh fun a s' he => ?_
  have hl' := stable_lossless _ _ _ _ (fun hp => by simp at hp) hl he
  refine ⟨hl', fun rc ha => hQ rc s' (fun hdone => ?_) hl'⟩
  have ha' : a = some 0 := by
    rcases hdone with hp | hrc
    · exact he.2.created rfl part arg hp rfl
    · rw [ha, hrc]
  obtain ⟨h1, h2, h3⟩ := stable_hasMembers parts _ _ _ _ (fun h => by simp at h) hs he
  refine ⟨h1, h2, fun p hp => ?_⟩
  rcases List.mem_cons.mp hp with rfl | hp
  · rw [(he.1.1.done ha').member]
    simp [effect, What.creates]
  · exact h3 p hp

theorem keeps_start {qm : Str} (hs : Lossless src dst s.log) :
    Keeps src dst (start qm dst host) (fun rc s' => rc = 0 → IsStarted dst s') s := by
  unfold Keeps start masked masked
  rw [wp_bind, wp_bind]
  refine keeps_sh fun a s₁ he₁ => ?_
  have hs₁ := stable_lossless _ _ _ _ (fun hp => by simp at hp) hs he₁
  have hup : s₁.world.standby dst = false := by
    rcases he₁.2.unstandby rfl rfl with ha | hsb
    · rw [(he₁.1.1.done ha).standby]
      simp [effect, What.standby]
    · exact standby_keep he₁.1.1 hsb fun _ h => by simp at h
  refine ⟨hs₁, fun _ _ => ?_⟩
  rw [wp_pure, wp_bind]
  refine keeps_sh fun a s₂ he₂ => ?_
  have hs₂ := stable_lossless _ _ _ _ (fun hp => by simp at hp) hs₁ he₂
  have hup₂ : s₂.world.standby dst = false := standby_keep he₂.1.1 hup fun _ h => by simp at h
  obtain ⟨hall, henabled⟩ := he₂.2.group rfl rfl
  refine ⟨hs₂, fun rc ha => ?_⟩
  split
  · rename_i hrc
    have hm : ∀ part, s₂.world.member dst part = true :=
      fun part => member_keep he₂.1.1 (hall (by rw [ha, hrc]) part)
    refine keeps_sh fun a' s₃ he₃ =>
      ⟨stable_lossless _ _ _ _ (fun hp => by simp at hp) hs₂ he₃, fun rc' ha' hrc' => ?_⟩
    refine ⟨standby_keep he₃.1.1 hup₂ fun _ h => by simp at h, ?_, fun part => member_keep he₃.1.1 (hm part)⟩
    rw [(he₃.1.1.done (by rw [ha', hrc'])).disabled]
    simp [effect]
  · rename_i hrc
    have hd₂ : s₂.world.disabled dst = false := by
      refine disabled_keep he₂.1.1 (henabled fun h0 => hrc ?_)
      rw [ha] at h0
      exact Option.some.inj h0
    have hnone : HasMembers dst [] s₂ := ⟨hup₂, hd₂, fun p hp => absurd hp List.not_mem_nil⟩
    simp only [masked]
    rw [wp_bind, wp_bind]
    refine keeps_create hs₂ hnone fun _ s₃ h₃ hl₃ => ?_
    rw [wp_bind]
    refine keeps_create hl₃ (h₃ (Or.inl (by decide))) fun _ s₄ h₄ hl₄ => ?_
    rw [wp_bind]
    refine keeps_create hl₄ (h₄ (Or.inl (by decide))) fun _ s₅ h₅ hl₅ => ?_
    rw [wp_pure]
    exact keeps_create hl₅ (h₅ (Or.inl (by decide))) fun _ s₆ h₆ _ hrc => hasMembers_all (h₆ (Or.inr hrc))

theorem stable_settled : Stable src dst (fun c => c.what = .report) fun s => Settled s.world :=
  fun _ _ _ _ hK _ he => he.2.settled hK

theorem keeps_report (hs : Lossless src dst s.log) :
    Keeps src dst (report dst host) (fun rc s' => rc = 0 → Settled s'.world) s := by
  unfold Keeps report masked masked
  rw [wp_bind, wp_bind]
  refine keeps_sh fun a s' he => ⟨stable_lossless _ _ _ _ (fun hp => by simp at hp) hs he, fun _ _ => ?_⟩
  exact fun _ => he.2.settled rfl

/-! ### The whole script -/

/-- The command leaves DRBD's roles alone. -/
def Calm (dst : Site) (c : Cmd) : Prop :=
  c.site = dst ∧ c.what ≠ .drbdPrimary ∧ c.what ≠ .drbdSecondary

/-- Nor does it touch the export, or put a cluster in standby. -/
def CalmCluster (dst : Site) (c : Cmd) : Prop :=
  Calm dst c ∧ c.what.exports = false ∧ c.what ≠ .standbyAll

/-- TO was promoted as it should be. -/
def IsPromoted (src dst : Site) (s : State) : Prop :=
  MayPromote src dst s ∧ s.world.role dst = .primary

theorem stable_isPromoted : Stable src dst (Calm dst) (IsPromoted src dst) :=
  (stable_mayPromote.mono fun _ hc hp => hc.2.1 hp.2).and (stable_promoted.mono fun _ hc hp => hc.2.2 hp.2)

theorem issues_exportLun : (exportLun dst host).Issues (Calm dst) := by
  refine issues_bind (issues_masked fun w hw => ⟨rfl, ?_⟩) fun _ => issues_sh ⟨rfl, by simp, by simp⟩
  simp only [List.mem_append, List.mem_map, List.mem_cons, List.not_mem_nil, or_false] at hw
  constructor <;> · rintro rfl; simp at hw

theorem issues_attach : (attach dst host).Issues (CalmCluster dst) := by
  have hc : ∀ {w : What}, w.attaches = true ∨ w = .lsLabel → CalmCluster dst ⟨dst, host, w⟩ := by
    intro w hw
    cases w <;> simp_all [CalmCluster, Calm, What.attaches, What.exports]
  refine issues_bind (issues_masked fun w hw => hc ?_) fun _ => issues_bind (issues_sh (hc (Or.inl rfl))) fun rc =>
    issues_bind (issues_masked fun w hw => hc ?_) fun _ => issues_sh (hc (Or.inr rfl))
  · obtain rfl := List.mem_singleton.mp hw
    exact Or.inl rfl
  · split at hw
    · exact absurd hw List.not_mem_nil
    · obtain rfl := List.mem_singleton.mp hw
      exact Or.inl rfl

theorem issues_start {qm : Str} : (start qm dst host).Issues (CalmCluster dst) := by
  have hc : ∀ {part : Part} {arg : Str}, CalmCluster dst ⟨dst, host, .create part arg⟩ :=
    ⟨⟨rfl, by simp, by simp⟩, rfl, by simp⟩
  refine issues_bind (issues_masked fun w hw => ?_) fun _ => issues_bind (issues_sh ?_) fun rc => ?_
  · obtain rfl := List.mem_singleton.mp hw
    exact ⟨⟨rfl, by simp, by simp⟩, rfl, by simp⟩
  · exact ⟨⟨rfl, by simp, by simp⟩, rfl, by simp⟩
  · split
    · exact issues_sh ⟨⟨rfl, by simp, by simp⟩, rfl, by simp⟩
    · refine issues_bind (issues_masked fun w hw => ?_) fun _ => issues_sh hc
      simp only [List.mem_cons, List.not_mem_nil, or_false] at hw
      rcases hw with rfl | rfl | rfl <;> exact hc

theorem issues_report : (report dst host).Issues (fun c => CalmCluster dst c ∧ c.what = .report) := by
  refine issues_bind (issues_masked fun w hw => ?_) fun _ => trivial
  obtain rfl := List.mem_singleton.mp hw
  exact ⟨⟨⟨rfl, by simp, by simp⟩, rfl, by simp⟩, rfl⟩

theorem issues_waitUnmounted (h : K ⟨site, host, .mountpoint⟩) :
    ∀ n, (waitUnmounted site host n).Issues K
  | 0 => trivial
  | n + 1 => issues_bind (issues_sh h) fun rc => by
    split
    · exact issues_waitUnmounted h n
    · trivial

theorem issues_quiesce (h : K ⟨site, host, .mountpoint⟩) : (quiesce site host).Issues K :=
  issues_bind (issues_waitUnmounted h 30) fun _ =>
    issues_bind (issues_masked fun _ hw => List.mem_singleton.mp hw ▸ h) fun _ => trivial

/-- A call keeps what its commands keep, whatever it comes to. -/
theorem keeps_call {inv : Inventory} {pat : Pattern} {script : Site → Str → Sh ℕ} {P : State → Prop}
    (hiss : ∀ host, (script pat.site host).Issues K) (hP : Stable src dst K P)
    (hlaw : ∀ s, P s → Lossless src dst s.log) (hs : P s) :
    Keeps src dst (onHosts (script pat.site) (inv pat)) (fun _ => P) s :=
  wp_mono (fun _ _ h => h) (fun _ _ _ => trivial) _ _
    (keeps_of_issues (issues_onHosts hiss (inv pat)) hP hlaw hs)

theorem keeps_run_of_stable {inv : Inventory} {pat : Pattern} {script : Site → Str → Sh ℕ} {P : State → Prop}
    {Q : Unit → State → Prop} (hiss : ∀ host, (script pat.site host).Issues K) (hP : Stable src dst K P)
    (hlaw : ∀ s, P s → Lossless src dst s.log) (hs : P s) (hQ : ∀ s', P s' → Q () s') :
    Keeps src dst (run inv pat script) Q s := by
  unfold Keeps run
  rw [wp_bind]
  refine wp_mono (fun rcs s' hs' => ?_) (fun _ _ _ => trivial) _ _ (keeps_call hiss hP hlaw hs)
  split
  · exact hQ s' hs'
  · trivial

/-- **The steps keep `Lossless`, and end with the switch made**, if each is sound. -/
theorem keeps_steps {inv : Inventory} {qm : Str} (hne : src ≠ dst) (hinv : Named inv src dst)
    (hs : Lossless src dst s.log) :
    Keeps src dst (steps inv src dst qm) (fun _ s' => Switched src dst s'.world) s := by
  obtain ⟨hsrc, hdst, hpcmk, hfirst⟩ := hinv
  have hquiet : Stable src dst (fun c => c.what = .standbyAll ∨ c.what = .mountpoint)
      fun s => Lossless src dst s.log := stable_lossless.mono fun c hc hp => by
    rcases hc with h | h <;> simp [hp.2] at h
  -- what FROM's steps reach
  have hstatus : Stable src dst (fun c => c.what = .drbdStatus) fun s => Lossless src dst s.log :=
    stable_lossless.mono fun c hc hp => by simp [hp.2] at hc
  have hsecondary : ∀ host, (demote src host).Issues fun c => c.site = src ∧ c.what ≠ .drbdPrimary := by
    intro host
    refine issues_bind (issues_masked fun w hw => ⟨rfl, ?_⟩) fun _ => issues_sh ⟨rfl, by simp⟩
    rintro rfl
    simp at hw
  have hobs : Stable src dst (fun c => c.site = src ∧ c.what ≠ .drbdPrimary)
      fun s => Lossless src dst s.log ∧ IsObserved dst s :=
    (stable_lossless.mono fun _ hc hp => hc.2 hp.2).and (stable_observed.mono fun _ _ => trivial)
  -- and TO's
  have hprimary : ∀ host, (promote dst host).Issues fun c => c.site = dst ∧ c.what ≠ .drbdSecondary := by
    intro host
    refine issues_bind (issues_sh ⟨rfl, by simp⟩) fun rc => ?_
    split
    · exact issues_sh ⟨rfl, by simp⟩
    · trivial
  have hcluster : Stable src dst (CalmCluster dst) (IsPromoted src dst) := stable_isPromoted.mono fun _ hc => hc.1
  have hattached : Stable src dst (CalmCluster dst) fun s => s.world.attached dst = true :=
    stable_attached.mono fun _ hc hx => by simp [hc.2.1] at hx
  have hstarted : Stable src dst (CalmCluster dst) (IsStarted dst) :=
    stable_started.mono fun _ hc hx => hc.2.2 hx.2
  unfold Keeps steps runMasked
  rw [wp_bind, wp_bind]
  refine wp_mono (fun _ s₁ hs₁ => ?_) (fun _ _ _ => trivial) _ _
    (keeps_call (fun host => issues_sh (Or.inl rfl)) hquiet (fun _ h => h) hs)
  rw [wp_pure, wp_bind]
  refine keeps_run_of_stable (fun host => issues_quiesce (Or.inr rfl)) hquiet (fun _ h => h) hs₁
    fun s₂ hs₂ => ?_
  rw [wp_bind]
  refine keeps_run (fun host => issues_sh rfl) hstatus
    (stable_observed.mono fun _ _ => trivial) (fun _ h => h) (fun host s h => keeps_confirm h) hsrc hs₂
    fun s₃ hl₃ ho₃ => ?_
  rw [wp_bind]
  refine keeps_run hsecondary hobs (stable_demoted.mono fun _ hc hp => hc.2 hp.2)
    (fun _ h => h.1) (fun host s h => keeps_demote h.1) hsrc ⟨hl₃, ho₃⟩ fun s₄ h₄ hd₄ => ?_
  rw [wp_bind]
  refine keeps_run hprimary
    (stable_mayPromote.mono fun _ hc hp => hne (hp.1.symm.trans hc.1))
    (stable_promoted.mono fun _ hc hp => hc.2 hp.2) (fun _ h => h.1.1)
    (fun host s h => keeps_promote hne h) hdst ⟨h₄, hd₄⟩ fun s₅ h₅ hr₅ => ?_
  rw [wp_bind]
  refine keeps_run_of_stable (fun host => issues_exportLun) stable_isPromoted (fun _ h => h.1.1.1) ⟨h₅, hr₅⟩
    fun s₆ h₆ => ?_
  rw [wp_bind]
  refine keeps_run (fun host => issues_attach) hcluster hattached
    (fun _ h => h.1.1.1) (fun host s h => keeps_attach h.1.1.1) hpcmk h₆ fun s₇ h₇ ha₇ => ?_
  rw [wp_bind]
  refine keeps_run (fun host => issues_start) (hcluster.and hattached) hstarted
    (fun _ h => h.1.1.1.1) (fun host s h => keeps_start h.1.1.1.1) hfirst ⟨h₇, ha₇⟩ fun s₈ h₈ hst₈ => ?_
  refine keeps_run (fun host => issues_report)
    (((hcluster.and hattached).and hstarted).mono fun _ hc => hc.1) (stable_settled.mono fun _ hc => hc.2)
    (fun _ h => h.1.1.1.1.1) (fun host s h => keeps_report h.1.1.1.1.1) hfirst ⟨h₈, hst₈⟩
    fun s₉ h₉ hset => ?_
  obtain ⟨⟨⟨⟨-, -, hsec⟩, hprim⟩, hatt⟩, hup, hen, hmem⟩ := h₉
  refine ⟨(hset dst).mpr ⟨hprim, hatt, hup, hen, hmem⟩, Bool.eq_false_iff.mpr fun hrun => ?_⟩
  have hready := ((hset src).mp hrun).1
  rw [hsec] at hready
  exact absurd hready (by decide)

end

theorem from_ne_to (dir : Option Str) : fromSite dir ≠ toSite dir := by
  unfold fromSite toSite
  split <;> decide

/-- **In every run of sound steps** the cutover promotes TO only after FROM was
demoted and TO observed in sync, and exits 0 only with the switch made. -/
theorem san_cutover_law {inv : Inventory} {dir qm : Option Str} {w : World}
    (hinv : Named inv (fromSite dir) (toSite dir)) {y : Cfg State Cmd Ans Exit Unit}
    (hr : Reach (soundEnv (fromSite dir) (toSite dir)) (cutover inv dir qm, ⟨w, []⟩) y) :
    Lossless (fromSite dir) (toSite dir) y.2.log ∧
      (y.1 = .ret () → Switched (fromSite dir) (toSite dir) y.2.world) := by
  have hkeeps : Keeps (fromSite dir) (toSite dir) (cutover inv dir qm)
      (fun _ s' => Switched (fromSite dir) (toSite dir) s'.world) ⟨w, []⟩ := by
    unfold Keeps cutover
    split
    · trivial
    · exact keeps_steps (from_ne_to dir) hinv obeys_nil
  obtain ⟨hl, hy⟩ := wp_reach hr obeys_nil hkeeps
  refine ⟨hl, fun hret => ?_⟩
  rw [hret] at hy
  exact hy

/-! ### In the lab -/

def labInventory : Inventory
  | .san .a => ["san-a".toList]
  | .san .b => ["san-b".toList]
  | .pcmk s => iqns s
  | .first s => (iqns s).take 1

/-- Site A live, site B in wait with the group defined; the DRBD link as given. -/
def labWorld (connected : Bool) : World where
  role s := if s = .a then .primary else .secondary
  disk _ := .upToDate
  connected := connected
  attached s := s = .a
  standby s := s = .b
  member _ _ := true
  disabled _ := false
  running s := s = .a

instance (w : World) (s : Site) : Decidable (∀ part, w.member s part = true) :=
  decidable_of_iff (∀ part ∈ [Part.fs, .vip, .vipExt, .qm], w.member s part = true)
    ⟨fun h part => h part (by cases part <;> decide), fun h part _ => h part⟩

instance (w : World) (s : Site) : Decidable (Ready w s) := inferInstanceAs (Decidable (_ ∧ _))

/-- Every command does its work at once; the queue manager starts where it can
if `starts`, and stops where it cannot. -/
def labNext (starts : Bool) (w : World) (c : Cmd) : World :=
  let v := { effect w c with
    attached := if c.what.attaches then Function.update w.attached c.site true else w.attached }
  { v with running := fun s => (starts || w.running s) && decide (Ready v s) }

def labRc (w : World) (c : Cmd) : ℕ :=
  match c.what with
  | .mountpoint => 1
  | .lsLabel => if w.attached c.site then 0 else 1
  | _ => 0

def labStep (starts : Bool) (s : State) (c : Cmd) : Ans c × State :=
  (some (labRc s.world c), ⟨labNext starts s.world c, s.log ++ [⟨s.world, c, some (labRc s.world c)⟩]⟩)

theorem labStep_env (starts : Bool) (s : State) (c : Cmd) :
    env s c (labStep starts s c).1 (labStep starts s c).2 := by
  refine ⟨⟨Or.inl ⟨rfl, rfl, rfl, rfl, fun t _ ht => ?_, fun t hx ht => ?_⟩, fun hw ha => ?_⟩, rfl⟩
  · simp only [labStep, labNext]
    split
    · by_cases hs : t = c.site
      · rw [hs, Function.update_self]
      · rw [Function.update_of_ne hs]; exact ht
    · exact ht
  · simp only [labStep, labNext]
    split
    · rename_i hatt
      have hs : t ≠ c.site := fun hs => by simp [hatt] at hx; exact hx hs
      rw [Function.update_of_ne hs]; exact ht
    · exact ht
  · simp only [labStep, labRc, hw, Option.some.injEq] at ha
    by_contra hno
    simp [hno] at ha

/-- The cutover of the lab from A to B. -/
def labCutover : Sh Unit := cutover labInventory (some "a2b".toList) (some "PCMKAPP".toList)

def labRun (connected starts : Bool) : Cfg State Cmd Ans Exit Unit :=
  labCutover.exec (labStep starts) ⟨labWorld connected, []⟩

/-- What a lab with its link up and its group defined keeps. -/
def LabSound (s : State) : Prop :=
  s.world.connected = true ∧ (∀ t, s.world.disk t = .upToDate) ∧
    (∀ t part, s.world.member t part = true) ∧ ∀ t, s.world.disabled t = false

theorem labStep_sound (s : State) (c : Cmd) (hs : LabSound s) :
    soundEnv .a .b s c (labStep true s c).1 (labStep true s c).2 ∧ LabSound (labStep true s c).2 := by
  have he := labStep_env true s c
  obtain ⟨hc, hdisk, hm, hd⟩ := hs
  refine ⟨⟨he, fun _ _ => ⟨hc, hdisk .b⟩, fun _ hw => Or.inl ?_, fun _ hw => ⟨fun _ => hm .b, fun _ => hd .b⟩,
    fun _ part arg _ hw => ?_, fun _ t => ?_⟩, hc, hdisk, fun t part => member_keep he.1 (hm t part),
    fun t => disabled_keep he.1 (hd t)⟩
  · simp [labStep, labRc, hw]
  · simp [labStep, labRc, hw]
  · simp only [labStep, labNext, Bool.true_or, Bool.true_and, decide_eq_true_eq]
    rfl

theorem san_cutover_law_lab : (labRun true true).1 = .ret () ∧
    Lossless .a .b (labRun true true).2.log ∧ Switched .a .b (labRun true true).2.world := by
  have hlab : LabSound ⟨labWorld true, []⟩ := ⟨rfl, fun _ => rfl, fun _ _ => rfl, fun _ => rfl⟩
  have hr := reach_exec (J := LabSound) labStep_sound labCutover ⟨labWorld true, []⟩ hlab
  have hlaw := @san_cutover_law labInventory (some "a2b".toList) (some "PCMKAPP".toList) (labWorld true)
    ⟨by decide, by decide, by decide, by decide⟩ _ hr
  exact ⟨rfl, hlaw.1, hlaw.2 rfl⟩

/-- **The cutover promotes a copy that was cut off, and exits 0 without the
queue manager**: the link is down from the start, and the unit does not start. -/
theorem cutover_promotes_unobserved : ∃ y, Reach env (labCutover, ⟨labWorld false, []⟩) y ∧
    y.1 = .ret () ∧ ¬ Lossless .a .b y.2.log ∧ ¬ Switched .a .b y.2.world := by
  refine ⟨labRun false false, reach_exec (J := fun _ => True) (fun s c _ => ⟨labStep_env false s c, trivial⟩)
    labCutover _ trivial, rfl, fun hl => ?_, fun h => absurd h.1 (by decide)⟩
  have hcut : (labRun false false).2.log.all (fun e => !e.before.connected) = true := rfl
  have hasked : (labRun false false).2.log.any
      (fun e => decide (e.cmd.site = .b ∧ e.cmd.what = .drbdPrimary)) = true := rfl
  obtain ⟨e, he, hp⟩ := List.any_eq_true.mp hasked
  have hprom : Promotes .b e := by simpa [Promotes] using hp
  obtain ⟨l₀, l₁, hlog⟩ := List.append_of_mem he
  obtain ⟨-, e', he', -, -, hc, -⟩ := hl l₀ e l₁ hlog hprom
  have hno := List.all_eq_true.mp hcut e' (by rw [hlog]; exact List.mem_append_left _ he')
  rw [hc] at hno
  exact absurd hno (by decide)

end Pcmk
end MqResiliency
