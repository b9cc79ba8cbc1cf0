/-
# When the RDQM cutover is gated

The script takes the node that a site's `rdqmstatus` names as its HA primary
on trust. Where each name that it resolves is a node of the site it asked
(`Located`), `rdqmdr -s` and `rdqmdr -p` are issued where and when they should
(`Gated`), and the script exits 0 exactly when its final read shows the new
live site (`Passed`). The loops are bounded against any texts.
-/
import MqResiliency.Switch.Rdqm

namespace MqResiliency
namespace Rdqm

open Prog Py

/-- A call and what it came to. -/
abbrev Event : Type := Exchange Cmd Ans

section
variable (space : Char → Bool) (real : Str → Prop) (v : Settings)

/-! ### What the cutover promises -/

/-- The HA primary of these nodes was resolved to one of them. -/
def Resolved (ns : List Str) (e : Event) : Prop :=
  e.1.node ∈ ns ∧ e.1.what = .rdqmstatus .discover ∧
    (rdqmField space "HA current location".toList e.2.stdout = "This node".toList ∨
      rdqmField space "HA current location".toList e.2.stdout ∈ ns)

/-- `DR status: Normal` was read from the node. -/
def ReadNormal (node : Str) (e : Event) : Prop :=
  e.1.node = node ∧ e.1.what = .rdqmstatus .sync ∧
    rdqmField space "DR status".toList e.2.stdout = "Normal".toList

/-- `rdqmdr -s` succeeded on a real host. -/
def Demoted (e : Event) : Prop := real e.1.node ∧ e.1.what = .rdqmdrS ∧ e.2.rc = 0

/-- The condition on each command when it is issued. -/
def Gate (src dst : Site) (h : History Cmd Ans) (c : Cmd) : Prop :=
  (c.what = .rdqmdrS → c.node ∈ nodes src ∧ (∃ e ∈ h, ReadNormal space c.node e) ∧
    ∃ e ∈ h, Resolved space (nodes dst) e) ∧
  (c.what = .rdqmdrP → c.node ∈ nodes dst ∧ ∃ e ∈ h, Demoted real e)

/-- Every command met its gate. -/
abbrev Gated (src dst : Site) : History Cmd Ans → Prop := ObeysAsk (Gate space real src dst)

/-- The final read, on a node of TO, showed the new live site; with the drill,
the token was retrieved. -/
def Passed (dst : Site) (vip : Str) (h : History Cmd Ans) : Prop :=
  (∃ e ∈ h, e.1.node ∈ nodes dst ∧ e.1.what = .rdqmstatus .verify ∧ e.2.rc = 0 ∧
    Shows space vip e.2.stdout) ∧
  (v.rpo0Drill = true → ∃ e ∈ h, e.1.what = .getDrill (queueOf v) ∧ e.2.rc = 0 ∧
    retrieved v.rpo0Token e.2.stdout = true)

/-- What a call may come to: on a name that is no host it does nothing and exits
0, and the location that a node of a site reports is of that site. -/
structure Located (c : Cmd) (a : Ans c) : Prop where
  noHost : ¬ real c.node → a = ⟨0, []⟩
  located : c.what = .rdqmstatus .discover → ∀ s, c.node ∈ nodes s →
    rdqmField space "HA current location".toList a.stdout = [] ∨
      rdqmField space "HA current location".toList a.stdout = "This node".toList ∨
      rdqmField space "HA current location".toList a.stdout ∈ nodes s

/-! ### The loops are bounded -/

/-- The polls that a timeout allows at an interval of ten seconds. -/
def polls (timeout : ℤ) : ℕ := (timeout.toNat + 9) / 10 + 1

theorem polls_step {timeout waited : ℤ} (h : ¬ timeout ≤ waited) :
    polls (timeout - (waited + 10)) + 1 ≤ polls (timeout - waited) := by
  unfold polls
  omega

theorem atMost_rdqmstatusOn (read : Read) (node : Str) : (rdqmstatusOn v read node).AtMost 1 :=
  fun a => atMost_pure 0 a.stdout

theorem atMost_haPass : ∀ ns : List Str, (haPass space v ns).AtMost ns.length
  | [] => atMost_pure _ _
  | n :: ns => by
    have hrest := (atMost_rdqmstatusOn v .discover n).bind (m := ns.length) (f := fun out =>
      let loc := rdqmField space "HA current location".toList out
      if loc = [] then haPass space v ns
      else if loc = "This node".toList then pure (some n)
      else pure (some loc)) fun out => by
        dsimp only
        split
        · exact atMost_haPass ns
        · split <;> exact atMost_pure _ _
    exact hrest.mono (by rw [List.length_cons]; omega)

theorem atMost_haPrimaryFrom (ns : List Str) : ∀ i, (haPrimaryFrom space v ns i).AtMost (i * ns.length)
  | 0 => atMost_throw _ _
  | i + 1 => by
    unfold haPrimaryFrom
    have hn : (i + 1) * ns.length = ns.length + i * ns.length := by rw [Nat.succ_mul]; omega
    rw [hn]
    refine (atMost_haPass space v ns).bind fun r => ?_
    cases r with
    | none => exact atMost_haPrimaryFrom ns i
    | some p => exact atMost_pure _ _

/-- A wait loop polls as often as its timeout allows. -/
theorem atMost_poll (read : Read) (good : Str → Bool) {late : Sh Unit} (hlate : ∀ n, late.AtMost n)
    (timeout : ℤ) (node : Str) (waited : ℤ) :
    (poll v read good late timeout node waited).AtMost (polls (timeout - waited)) := by
  induction waited using poll.induct timeout with
  | case1 waited ih =>
    unfold poll
    have hn : polls (timeout - waited) = 1 + (polls (timeout - waited) - 1) := by unfold polls; omega
    rw [hn]
    refine (atMost_rdqmstatusOn v read node).bind fun out => ?_
    split
    · exact atMost_pure _ _
    · split
      · exact hlate _
      · rename_i hw
        have hstep := polls_step hw
        exact (ih hw).mono (by omega)

/-! ### The script ends -/

theorem ends_rdqmstatusOn (read : Read) (node : Str) : (rdqmstatusOn v read node).Ends :=
  (ends_ask _).bind fun _ => ends_pure _

theorem ends_run (node : Str) (what : What) : (run v node what).Ends :=
  (ends_ask _).bind fun r => by split <;> simp

theorem ends_haPass : ∀ ns : List Str, (haPass space v ns).Ends
  | [] => ends_pure _
  | n :: ns => (ends_rdqmstatusOn v _ n).bind fun out => by
    dsimp only
    split
    · exact ends_haPass ns
    · split <;> simp

theorem ends_haPrimaryFrom (ns : List Str) : ∀ i, (haPrimaryFrom space v ns i).Ends
  | 0 => ends_throw _
  | i + 1 => (ends_haPass space v ns).bind fun r => by
    cases r with
    | none => exact ends_haPrimaryFrom ns i
    | some p => exact ends_pure p

theorem ends_poll (read : Read) (good : Str → Bool) {late : Sh Unit} (hlate : late.Ends) (timeout : ℤ)
    (node : Str) (waited : ℤ) : (poll v read good late timeout node waited).Ends := by
  induction waited using poll.induct timeout with
  | case1 waited ih =>
    unfold poll
    refine (ends_rdqmstatusOn v read node).bind fun out => ?_
    split
    · exact ends_pure _
    · split
      · exact hlate
      · exact ih ‹_›

theorem ends_onDrill {p : Sh Unit} (hp : p.Ends) : (onDrill v p).Ends := by
  unfold onDrill
  split
  · exact hp
  · exact ends_pure _

theorem ends_ensureVip (node vip : Str) : (ensureVip space v node vip).Ends :=
  (ends_run v node _).bind fun status => by
    dsimp only
    split
    · exact ends_pure _
    · split
      · exact ends_throw _
      · exact (ends_run v node _).bind fun out => (ends_run v node _).bind fun _ => ends_pure _

theorem ends_verifySteps (node vip : Str) : (verifySteps space v node vip).Ends := by
  refine ((ends_run v node _).bind fun status => ?_).bind fun _ =>
    ends_onDrill v ((ends_run v node _).bind fun out => ?_)
  · split <;> simp
  · split <;> simp

theorem ends_steps (src dst : Site) (vip : Str) : (steps space v src dst vip).Ends := by
  refine (ends_haPrimaryFrom space v _ _).bind fun fromPrimary => (ends_haPrimaryFrom space v _ _).bind
    fun toPrimary => (ends_onDrill v ?_).bind fun _ => ?_
  · exact (ends_run v _ _).bind fun _ => (ends_run v _ _).bind fun _ => ends_pure _
  · exact (ends_poll v _ _ (ends_throw 1) _ _ 0).bind fun _ => (ends_run v _ _).bind fun _ =>
      (ends_run v _ _).bind fun _ => (ends_haPrimaryFrom space v _ _).bind fun newPrimary =>
        (ends_poll v _ _ (ends_pure ()) _ _ 0).bind fun _ => (ends_ensureVip space v _ _).bind fun _ =>
          ends_verifySteps space v _ _

/-! ### What the functions keep -/

/-- The command is no `rdqmdr`, not the final read and no retrieval. -/
def What.quiet : What → Bool
  | rdqmdrS | rdqmdrP | rdqmstatus .verify | getDrill _ => false
  | _ => true

/-- Before the final read: all gates were met. -/
def Early (src dst : Site) (h : History Cmd Ans) : Prop :=
  Gated space real src dst h ∧
    ∀ e ∈ h, e.1.what ≠ .rdqmstatus .verify ∧ ∀ queue, e.1.what ≠ .getDrill queue

variable {space real v} {src dst : Site} {vip : Str} {h : History Cmd Ans}

theorem Early.not_passed (hI : Early space real src dst h) : ¬ Passed space v dst vip h := by
  rintro ⟨⟨e, he, -, hw, -⟩, -⟩
  exact (hI.2 e he).1 hw

theorem Early.concat (hI : Early space real src dst h) {c : Cmd} (hgate : Gate space real src dst h c)
    (hw : c.what ≠ .rdqmstatus .verify) (hq : ∀ queue, c.what ≠ .getDrill queue) (a : Ans c) :
    Early space real src dst (h ++ [⟨c, a⟩]) := by
  refine ⟨(obeys_concat _).mpr ⟨hI.1, hgate⟩, fun e he => ?_⟩
  rcases List.mem_append.mp he with he | he
  · exact hI.2 e he
  · obtain rfl := List.mem_singleton.mp he
    exact ⟨hw, hq⟩

theorem gate_of_quiet {c : Cmd} (hc : c.what.quiet = true) : Gate space real src dst h c := by
  constructor <;> · intro hw; rw [hw] at hc; exact absurd hc (by decide)

theorem Early.concat_quiet (hI : Early space real src dst h) {c : Cmd} (hc : c.what.quiet = true) (a : Ans c) :
    Early space real src dst (h ++ [⟨c, a⟩]) := by
  refine hI.concat (gate_of_quiet hc) (fun hw => ?_) (fun queue hw => ?_) a
  · rw [hw] at hc; exact absurd hc (by decide)
  · rw [hw] at hc; exact absurd hc (by simp [What.quiet])

/-- From `h` on, gates are met, a return is in `Q`, and an early exit has not passed. -/
abbrev Keeps (space : Char → Bool) (real : Str → Prop) (v : Settings) (src dst : Site) (vip : Str) {α : Type}
    (p : Sh α) (Q : α → History Cmd Ans → Prop) (h : History Cmd Ans) : Prop :=
  p.wp (Hist (Located space real)) (Gated space real src dst) Q (fun _ h' => ¬ Passed space v dst vip h') h

variable {node : Str} {what : What} {read : Read}

theorem keeps_rdqmstatusOn {Q : Str → History Cmd Ans → Prop} (hr : read ≠ .verify)
    (hI : Early space real src dst h)
    (hQ : ∀ r : Ran, Located space real ⟨node, qmOf v, .rdqmstatus read⟩ r →
      Early space real src dst (h ++ [⟨⟨node, qmOf v, .rdqmstatus read⟩, r⟩]) →
      Q r.stdout (h ++ [⟨⟨node, qmOf v, .rdqmstatus read⟩, r⟩])) :
    Keeps space real v src dst vip (rdqmstatusOn v read node) Q h := by
  have hquiet : (What.rdqmstatus read).quiet = true := by cases read <;> simp_all [What.quiet]
  unfold Keeps rdqmstatusOn
  rw [wp_bind]
  exact wp_ask_obeys hI.1 (gate_of_quiet hquiet) fun r hr _ => hQ r hr (hI.concat_quiet hquiet r)

/-- A strict call, given its gate. -/
theorem keeps_run_of_gate {Q : Str → History Cmd Ans → Prop} (hI : Early space real src dst h)
    (hgate : Gate space real src dst h ⟨node, qmOf v, what⟩) (hw : what ≠ .rdqmstatus .verify)
    (hq : ∀ queue, what ≠ .getDrill queue)
    (hQ : ∀ r : Ran, r.rc = 0 → Early space real src dst (h ++ [⟨⟨node, qmOf v, what⟩, r⟩]) →
      Q r.stdout (h ++ [⟨⟨node, qmOf v, what⟩, r⟩])) :
    Keeps space real v src dst vip (run v node what) Q h := by
  unfold Keeps run
  rw [wp_bind]
  refine wp_ask_obeys hI.1 hgate fun r _ _ => ?_
  have hI' := hI.concat hgate hw hq r
  split
  · exact hQ r ‹_› hI'
  · exact hI'.not_passed

theorem keeps_run {Q : Str → History Cmd Ans → Prop} (hw : what.quiet = true)
    (hI : Early space real src dst h)
    (hQ : ∀ out h', h <+: h' → Early space real src dst h' → Q out h') :
    Keeps space real v src dst vip (run v node what) Q h := by
  refine keeps_run_of_gate hI (gate_of_quiet hw) (fun h => ?_) (fun queue h => ?_)
    fun r _ hI' => hQ _ _ (List.prefix_append _ _) hI'
  · rw [h] at hw; exact absurd hw (by decide)
  · rw [h] at hw; exact absurd hw (by simp [What.quiet])

/-- A primary is resolved to a node of the site that is asked. -/
theorem keeps_haPass {site : Site} {Q : Option Str → History Cmd Ans → Prop} :
    ∀ (ns : List Str) (h : History Cmd Ans), (∀ n ∈ ns, n ∈ nodes site) → Early space real src dst h →
      (∀ h', h <+: h' → Early space real src dst h' → Q none h') →
      (∀ p ∈ nodes site, ∀ h', h <+: h' → Early space real src dst h' →
        (∃ e ∈ h', Resolved space (nodes site) e) → Q (some p) h') →
      Keeps space real v src dst vip (haPass space v ns) Q h
  | [], h, _, hI, hnone, _ => hnone h (List.prefix_refl h) hI
  | n :: ns, h, hns, hI, hnone, hsome => by
    have hn : n ∈ nodes site := hns n List.mem_cons_self
    unfold Keeps haPass
    rw [wp_bind]
    refine keeps_rdqmstatusOn (by decide) hI fun r hloc hI' => ?_
    set e : Event := ⟨⟨n, qmOf v, .rdqmstatus .discover⟩, r⟩ with he
    have hp := List.prefix_append h [e]
    have hmem : e ∈ h ++ [e] := List.mem_append_right _ (List.mem_singleton.mpr rfl)
    dsimp only
    split
    · exact keeps_haPass ns _ (fun m hm => hns m (List.mem_cons_of_mem _ hm)) hI'
        (fun h' hh => hnone h' (hp.trans hh)) fun p hpn h' hh => hsome p hpn h' (hp.trans hh)
    · rename_i hne
      split
      · rename_i hthis
        exact hsome n hn _ hp hI' ⟨e, hmem, hn, rfl, Or.inl hthis⟩
      · rename_i hthis
        rcases hloc.located rfl site hn with h0 | h0 | h0
        · exact absurd h0 hne
        · exact absurd h0 hthis
        · exact hsome _ h0 _ hp hI' ⟨e, hmem, hn, rfl, Or.inr h0⟩

theorem keeps_haPrimary {site : Site} {Q : Str → History Cmd Ans → Prop} (hI : Early space real src dst h)
    (hQ : ∀ p ∈ nodes site, ∀ h', h <+: h' → Early space real src dst h' →
      (∃ e ∈ h', Resolved space (nodes site) e) → Q p h') :
    Keeps space real v src dst vip (haPrimary space v (nodes site)) Q h := by
  unfold haPrimary
  generalize 30 = i
  have hall : ∀ h₁, h <+: h₁ → Early space real src dst h₁ →
      Keeps space real v src dst vip (haPrimaryFrom space v (nodes site) i) Q h₁ := by
    induction i with
    | zero => exact fun h₁ _ hI₁ => hI₁.not_passed
    | succ i ih =>
      intro h₁ hp₁ hI₁
      unfold Keeps haPrimaryFrom
      rw [wp_bind]
      exact keeps_haPass (nodes site) h₁ (fun n hn => hn) hI₁ (fun h₂ hp₂ hI₂ => ih h₂ (hp₁.trans hp₂) hI₂)
        fun p hpn h₂ hp₂ hI₂ hres => hQ p hpn h₂ (hp₁.trans hp₂) hI₂ hres
  exact hall h (List.prefix_refl h) hI

/-- A wait loop that returns saw a good status, or may be late. -/
theorem keeps_poll {good : Str → Bool} {late : Sh Unit} {timeout : ℤ} {Q : Unit → History Cmd Ans → Prop}
    (hr : read ≠ .verify)
    (hQ : ∀ h', h <+: h' → Early space real src dst h' →
      (∃ e ∈ h', e.1.node = node ∧ e.1.what = .rdqmstatus read ∧ Located space real e.1 e.2 ∧
        good e.2.stdout = true) → Q () h')
    (hlate : ∀ h', h <+: h' → Early space real src dst h' → Keeps space real v src dst vip late Q h')
    (waited : ℤ) : ∀ h₁, h <+: h₁ → Early space real src dst h₁ →
      Keeps space real v src dst vip (poll v read good late timeout node waited) Q h₁ := by
  induction waited using poll.induct timeout with
  | case1 waited ih =>
    intro h₁ hp₁ hI₁
    unfold Keeps poll
    rw [wp_bind]
    refine keeps_rdqmstatusOn hr hI₁ fun r hloc hI₂ => ?_
    set e : Event := ⟨⟨node, qmOf v, .rdqmstatus read⟩, r⟩ with he
    have hp₂ := hp₁.trans (List.prefix_append h₁ [e])
    split
    · exact hQ _ hp₂ hI₂ ⟨e, List.mem_append_right _ (List.mem_singleton.mpr rfl), rfl, rfl, hloc, ‹_›⟩
    · split
      · exact hlate _ hp₂ hI₂
      · exact ih ‹_› _ hp₂ hI₂

/-- An empty text has no field. -/
theorem rdqmField_nil (label : Str) : rdqmField space label [] = [] := by
  have hline : fieldOf space label [] = none := by
    unfold fieldOf
    exact if_neg (by cases label <;> simp)
  simp [rdqmField, hline]

/-- The gate before the cut: Normal was read from a real host. -/
theorem keeps_confirmDrInSync {timeout : ℤ} {Q : Unit → History Cmd Ans → Prop}
    (hI : Early space real src dst h)
    (hQ : ∀ h', h <+: h' → Early space real src dst h' → real node →
      (∃ e ∈ h', ReadNormal space node e) → Q () h') :
    Keeps space real v src dst vip (confirmDrInSync space v timeout node) Q h := by
  have hlate : ∀ h', h <+: h' → Early space real src dst h' →
      Keeps space real v src dst vip (throw 1 : Sh Unit) Q h' := fun h' _ hI' => hI'.not_passed
  unfold confirmDrInSync
  refine keeps_poll (by decide) (fun h' hp hI' hread => ?_) hlate 0 h (List.prefix_refl h) hI
  obtain ⟨e, he, hnode, hw, hloc, hgood⟩ := hread
  have hnormal : rdqmField space "DR status".toList e.2.stdout = "Normal".toList :=
    of_decide_eq_true hgood
  refine hQ h' hp hI' ?_ ⟨e, he, hnode, hw, hnormal⟩
  by_contra hreal
  have hempty := hloc.noHost (hnode ▸ hreal)
  rw [hempty, rdqmField_nil] at hnormal
  exact absurd hnormal (by decide)

theorem keeps_waitHaSettle {timeout : ℤ} {Q : Unit → History Cmd Ans → Prop}
    (hI : Early space real src dst h) (hQ : ∀ h', h <+: h' → Early space real src dst h' → Q () h') :
    Keeps space real v src dst vip (waitHaSettle space v timeout node) Q h := by
  have hlate : ∀ h', h <+: h' → Early space real src dst h' →
      Keeps space real v src dst vip (pure () : Sh Unit) Q h' := fun h' hp hI' => hQ h' hp hI'
  unfold waitHaSettle
  exact keeps_poll (by decide) (fun h' hp hI' _ => hQ h' hp hI') hlate 0 h (List.prefix_refl h) hI

theorem keeps_rpo0Seed {Q : Unit → History Cmd Ans → Prop} (hI : Early space real src dst h)
    (hQ : ∀ h', h <+: h' → Early space real src dst h' → Q () h') :
    Keeps space real v src dst vip (rpo0Seed v node) Q h := by
  unfold Keeps rpo0Seed
  rw [wp_bind]
  refine keeps_run rfl hI fun _ h₁ hp₁ hI₁ => ?_
  rw [wp_bind]
  exact keeps_run rfl hI₁ fun _ h₂ hp₂ hI₂ => hQ h₂ (hp₁.trans hp₂) hI₂

theorem keeps_ensureVip {Q : Unit → History Cmd Ans → Prop} (hI : Early space real src dst h)
    (hQ : ∀ h', h <+: h' → Early space real src dst h' → Q () h') :
    Keeps space real v src dst vip (ensureVip space v node vip) Q h := by
  unfold Keeps ensureVip
  rw [wp_bind]
  refine keeps_run rfl hI fun status h₁ hp₁ hI₁ => ?_
  dsimp only
  split
  · exact hQ h₁ hp₁ hI₁
  · split
    · exact hI₁.not_passed
    · rw [wp_bind]
      refine keeps_run rfl hI₁ fun out h₂ hp₂ hI₂ => ?_
      rw [wp_bind]
      exact keeps_run rfl hI₂ fun _ h₃ hp₃ hI₃ => hQ h₃ ((hp₁.trans hp₂).trans hp₃) hI₃

/-- Neither `rdqmdr` has a gate to meet. -/
theorem gate_of_ne {c : Cmd} (hs : c.what ≠ .rdqmdrS) (hp : c.what ≠ .rdqmdrP) :
    Gate space real src dst h c := ⟨fun h => absurd h hs, fun h => absurd h hp⟩

/-- A command that is the first of its kind is the only one. -/
theorem eq_of_first {e : Event} (hfirst : ∀ e' ∈ h, e'.1.what ≠ e.1.what) :
    ∀ e' ∈ h ++ [e], e'.1.what = e.1.what → e' = e := by
  intro e' hm hw
  rcases List.mem_append.mp hm with hm | hm
  · exact absurd hw (hfirst e' hm)
  · exact List.mem_singleton.mp hm

/-- 7. The drill decides on what the final read has shown. -/
theorem keeps_rpo0Verify (hG : Gated space real src dst h) (hdrill : v.rpo0Drill = true)
    (hfirst : ∀ e ∈ h, e.1.what ≠ .getDrill (queueOf v))
    (hread : ∃ e ∈ h, e.1.node ∈ nodes dst ∧ e.1.what = .rdqmstatus .verify ∧ e.2.rc = 0 ∧
      Shows space vip e.2.stdout) :
    Keeps space real v src dst vip (rpo0Verify v node) (fun _ h' => Passed space v dst vip h') h := by
  unfold Keeps rpo0Verify run
  rw [wp_bind, wp_bind]
  refine wp_ask_obeys hG (gate_of_ne (by simp) (by simp)) fun r _ _ => ?_
  set e : Event := ⟨⟨node, qmOf v, .getDrill (queueOf v)⟩, r⟩ with he
  have honly := eq_of_first (e := e) hfirst
  split
  · rename_i hrc
    rw [wp_pure]
    split
    · rename_i htoken
      obtain ⟨e', hm, hall⟩ := hread
      exact ⟨⟨e', List.mem_append_left _ hm, hall⟩, fun _ =>
        ⟨e, List.mem_append_right _ (List.mem_singleton.mpr rfl), rfl, hrc, htoken⟩⟩
    · rename_i htoken
      rintro ⟨-, hd⟩
      obtain ⟨e', hm, hw, -, ht⟩ := hd hdrill
      rw [honly e' hm hw] at ht
      exact htoken ht
  · rename_i hrc
    rintro ⟨-, hd⟩
    obtain ⟨e', hm, hw, ht, -⟩ := hd hdrill
    rw [honly e' hm hw] at ht
    exact hrc ht

/-- The final read and the drill decide: a return has passed, an exit has not. -/
theorem keeps_final (hnode : node ∈ nodes dst) (hI : Early space real src dst h) :
    Keeps space real v src dst vip (verifySteps space v node vip) (fun _ h' => Passed space v dst vip h') h := by
  unfold Keeps verifySteps verify run onDrill
  rw [wp_bind, wp_bind, wp_bind]
  refine wp_ask_obeys hI.1 (gate_of_ne (by simp) (by simp)) fun r _ hG => ?_
  set e : Event := ⟨⟨node, qmOf v, .rdqmstatus .verify⟩, r⟩ with he
  have honly := eq_of_first (e := e) fun e' hm => (hI.2 e' hm).1
  split
  · rename_i hrc
    rw [wp_pure]
    split
    · rename_i hshows
      have hread : ∃ e' ∈ h ++ [e], e'.1.node ∈ nodes dst ∧ e'.1.what = .rdqmstatus .verify ∧ e'.2.rc = 0 ∧
          Shows space vip e'.2.stdout :=
        ⟨e, List.mem_append_right _ (List.mem_singleton.mpr rfl), hnode, rfl, hrc, hshows⟩
      rw [wp_pure]
      split
      · rename_i hdrill
        refine keeps_rpo0Verify hG hdrill (fun e' hm => ?_) hread
        rcases List.mem_append.mp hm with hm | hm
        · exact (hI.2 e' hm).2 _
        · rw [List.mem_singleton.mp hm]
          simp [he]
      · rename_i hdrill
        exact ⟨hread, fun hd => absurd hd hdrill⟩
    · rename_i hshows
      rintro ⟨⟨e', hm, -, hw, -, hs⟩, -⟩
      rw [honly e' hm hw] at hs
      exact hshows hs
  · rename_i hrc
    rintro ⟨⟨e', hm, -, hw, hrc', -⟩, -⟩
    rw [honly e' hm hw] at hrc'
    exact hrc hrc'

/-- The cut is gated by what was read from the primaries. -/
theorem keeps_cutSteps {fromPrimary toPrimary : Str} (hfrom : fromPrimary ∈ nodes src)
    (hto : toPrimary ∈ nodes dst) (hres : ∃ e ∈ h, Resolved space (nodes dst) e)
    (hI : Early space real src dst h) :
    Keeps space real v src dst vip (cutSteps space v dst vip fromPrimary toPrimary)
      (fun _ h' => Passed space v dst vip h') h := by
  unfold Keeps cutSteps
  rw [wp_bind]
  refine keeps_confirmDrInSync hI fun h₁ hp₁ hI₁ hreal hnormal => ?_
  obtain ⟨e, he, hr⟩ := hres
  have hgateS : Gate space real src dst h₁ ⟨fromPrimary, qmOf v, .rdqmdrS⟩ :=
    ⟨fun _ => ⟨hfrom, hnormal, e, hp₁.subset he, hr⟩, fun hw => by simp at hw⟩
  rw [wp_bind]
  refine keeps_run_of_gate hI₁ hgateS (by simp) (by simp) fun r hrc hI₂ => ?_
  have hgateP : Gate space real src dst (h₁ ++ [⟨⟨fromPrimary, qmOf v, .rdqmdrS⟩, r⟩])
      ⟨toPrimary, qmOf v, .rdqmdrP⟩ :=
    ⟨fun hw => by simp at hw, fun _ => ⟨hto, _, List.mem_append_right _ (List.mem_singleton.mpr rfl),
      hreal, rfl, hrc⟩⟩
  rw [wp_bind]
  refine keeps_run_of_gate hI₂ hgateP (by simp) (by simp) fun _ _ hI₃ => ?_
  -- the site's primary may have moved in the promote
  rw [wp_bind]
  refine keeps_haPrimary hI₃ fun newPrimary hnew h₄ _ hI₄ _ => ?_
  rw [wp_bind]
  refine keeps_waitHaSettle hI₄ fun h₅ _ hI₅ => ?_
  rw [wp_bind]
  exact keeps_ensureVip hI₅ fun h₆ _ hI₆ => keeps_final hnew hI₆

/-- **The steps meet their gates**, and return exactly when they have passed. -/
theorem keeps_steps : Keeps space real v src dst vip (steps space v src dst vip)
    (fun _ h' => Passed space v dst vip h') [] := by
  have hnil : Early space real src dst [] := ⟨obeys_nil, fun e he => absurd he List.not_mem_nil⟩
  unfold Keeps steps
  rw [wp_bind]
  refine keeps_haPrimary hnil fun fromPrimary hfrom h₁ _ hI₁ _ => ?_
  rw [wp_bind]
  refine keeps_haPrimary hI₁ fun toPrimary hto h₂ _ hI₂ hres => ?_
  rw [wp_bind]
  unfold onDrill
  split
  · refine keeps_rpo0Seed hI₂ fun h₃ hp₃ hI₃ => ?_
    obtain ⟨e, he, hr⟩ := hres
    exact keeps_cutSteps hfrom hto ⟨e, hp₃.subset he, hr⟩ hI₃
  · exact keeps_cutSteps hfrom hto hres hI₂

variable (space real v)

/-- Every wait loop polls as often as its passes, or its timeout, allow. -/
def PollsBounded : Prop := ∀ (o : Oracle Cmd Ans) (h : History Cmd Ans),
  (∀ ns, ((haPrimary space v ns).run o h).1.length ≤ h.length + 30 * ns.length) ∧
  (∀ timeout node, ((confirmDrInSync space v timeout node).run o h).1.length ≤ h.length + polls timeout) ∧
  (∀ timeout node, ((waitHaSettle space v timeout node).run o h).1.length ≤ h.length + polls timeout)

theorem pollsBounded : PollsBounded space v := by
  refine fun o h => ⟨fun ns => (atMost_haPrimaryFrom space v ns 30).length_run o h, fun timeout node => ?_,
    fun timeout node => ?_⟩
  · have hlate : ∀ n, (throw 1 : Sh Unit).AtMost n := fun n => atMost_throw n 1
    have hpoll := atMost_poll v .sync (fun out => rdqmField space "DR status".toList out = "Normal".toList)
      hlate timeout node 0
    rw [Int.sub_zero] at hpoll
    exact hpoll.length_run o h
  · have hlate : ∀ n, (pure () : Sh Unit).AtMost n := fun n => atMost_pure n ()
    have hpoll := atMost_poll v .settle
      (fun out => rdqmField space "Queue manager status".toList out = "Running".toList ∧
        rdqmField space "HA blocked location".toList out = "None".toList)
      hlate timeout node 0
    rw [Int.sub_zero] at hpoll
    exact hpoll.length_run o h

/-- **The law of the RDQM cutover.** Against all texts in which the resolved
locations are nodes of the site asked: every `rdqmdr` meets its gate, and the
script exits 0 exactly when its final read shows the new live site. -/
theorem rdqm_cutover_law {o : Oracle Cmd Ans} (ho : ∀ h c, Located space real c (o h c)) :
    (∀ src dst, direction (orDefault v.dir "a2b".toList) = some (src, dst) →
      Gated space real src dst ((cutover space v).run o []).1 ∧
        (((cutover space v).run o []).2 = some (.ok ()) ↔
          ∃ vip, v.rdqmVip dst = some vip ∧ Passed space v dst vip ((cutover space v).run o []).1)) ∧
      (direction (orDefault v.dir "a2b".toList) = none →
        ((cutover space v).run o []).1 = [] ∧ ((cutover space v).run o []).2 = some (.error 2)) ∧
      PollsBounded space v := by
  refine ⟨fun src dst hdir => ?_, fun hdir => ?_, pollsBounded space v⟩
  · have hno : ∀ vip, ¬ Passed space v dst vip [] := fun vip => by
      rintro ⟨⟨e, he, -⟩, -⟩
      exact List.not_mem_nil he
    have hearly : ∀ vip', ((throw 1 : Sh Unit).run o []).2 = some (.ok ()) ↔
        ∃ vip, vip' = some vip ∧ Passed space v dst vip ((throw 1 : Sh Unit).run o []).1 := fun vip' =>
      ⟨fun h => absurd h (by simp [throw, Prog.run]), fun ⟨_, _, h⟩ => absurd h (hno _)⟩
    cases hvip : v.rdqmVip dst with
    | none =>
      simp only [cutover, hdir, hvip]
      exact ⟨obeys_nil, hearly none⟩
    | some vip =>
      simp only [cutover, hdir, hvip]
      split
      · exact ⟨obeys_nil, hearly (some vip)⟩
      · have hsteps : Keeps space real v src dst vip (steps space v src dst vip)
            (fun _ h' => Passed space v dst vip h') [] := keeps_steps
        obtain ⟨hG, hret, hexit⟩ := run_obeys ho hsteps
        refine ⟨hG, fun h => ⟨vip, rfl, hret () h⟩, ?_⟩
        rintro ⟨vip', heq, hpass⟩
        obtain rfl := Option.some.inj heq
        obtain ⟨r, hr⟩ := (ends_steps space v src dst vip).run o []
        cases r with
        | ok u => exact hr
        | error e => exact absurd hpass (hexit e hr)
  · unfold cutover
    rw [hdir]
    exact ⟨rfl, rfl⟩

end

/-! ### In the lab -/

/-- From A to B with the drill. -/
def labSettings : Settings where
  dir := some "a2b".toList
  qm := none
  drSyncTimeout := none
  haSettleTimeout := none
  rpo0Drill := true
  rpo0DrillQueue := none
  rdqmVip
    | .a => some "10.10.1.100".toList
    | .b => some "10.10.2.100".toList
  rpo0Token := "RPO0-1".toList

/-- The inventory's hosts. -/
def labReal (node : Str) : Prop := node ∈ nodes .a ∨ node ∈ nodes .b

instance (node : Str) : Decidable (labReal node) := inferInstanceAs (Decidable (_ ∨ _))

def labStatus (loc : Str) : Str :=
  "HA current location:   ".toList ++ loc ++ "\nDR status:    Normal\nDR role:  Primary\n".toList ++
    "Queue manager status:  Running\nHA blocked location:   None\n".toList ++
    "HA floating IP address:  10.10.2.100\n".toList

/-- Every command works; a node of each site reports a location. -/
def labOracle (loc : Site → Str) : Oracle Cmd Ans := fun _ c =>
  if labReal c.node then
    match c.what with
    | .rdqmstatus _ => ⟨0, labStatus (loc (if c.node ∈ nodes .a then .a else .b))⟩
    | .getDrill _ => ⟨0, "message <RPO0-1>\n".toList⟩
    | _ => ⟨0, []⟩
  else ⟨0, []⟩

theorem labOracle_noHost (loc : Site → Str) (h : History Cmd Ans) {c : Cmd} (hc : ¬ labReal c.node) :
    labOracle loc h c = ⟨0, []⟩ := if_neg hc

def thisNode (_ : Site) : Str := "This node".toList

theorem labOracle_located (h : History Cmd Ans) (c : Cmd) :
    Located isAsciiSpace labReal c (labOracle thisNode h c) := by
  refine ⟨labOracle_noHost thisNode h, fun hw s hs => Or.inr (Or.inl ?_)⟩
  have hreal : labReal c.node := by
    cases s with
    | a => exact Or.inl hs
    | b => exact Or.inr hs
  have hout : labOracle thisNode h c = ⟨0, labStatus "This node".toList⟩ := by
    unfold labOracle
    rw [if_pos hreal, hw]
    rfl
  rw [hout]
  decide +kernel

theorem rdqm_cutover_law_lab :
    Gated isAsciiSpace labReal .a .b ((cutover isAsciiSpace labSettings).run (labOracle thisNode) []).1 ∧
      ∃ vip, labSettings.rdqmVip .b = some vip ∧ Passed isAsciiSpace labSettings .b vip
        ((cutover isAsciiSpace labSettings).run (labOracle thisNode) []).1 := by
  have hlaw := (rdqm_cutover_law isAsciiSpace labReal labSettings labOracle_located).1 .a .b (by decide +kernel)
  exact ⟨hlaw.1, hlaw.2.mp (by decide +kernel)⟩

/-- Site B says that its queue manager is nowhere. -/
def noneAtB : Site → Str
  | .a => "This node".toList
  | .b => "None".toList

/-- **A stray location strands the lab**: site A is demoted though no primary
was resolved at site B, and `rdqmdr -p` is issued on a name that is no host. -/
theorem cutover_strands : (∀ h c, ¬ labReal c.node → labOracle noneAtB h c = ⟨0, []⟩) ∧
    (∃ e ∈ ((cutover isAsciiSpace labSettings).run (labOracle noneAtB) []).1, Demoted labReal e) ∧
    (∃ e ∈ ((cutover isAsciiSpace labSettings).run (labOracle noneAtB) []).1,
      e.1.what = .rdqmdrP ∧ ¬ labReal e.1.node) ∧
    ¬ Gated isAsciiSpace labReal .a .b ((cutover isAsciiSpace labSettings).run (labOracle noneAtB) []).1 := by
  have hp : ∃ e ∈ ((cutover isAsciiSpace labSettings).run (labOracle noneAtB) []).1,
      e.1.what = .rdqmdrP ∧ ¬ labReal e.1.node := by decide +kernel
  have hs : ∃ e ∈ ((cutover isAsciiSpace labSettings).run (labOracle noneAtB) []).1,
      labReal e.1.node ∧ e.1.what = .rdqmdrS ∧ e.2.rc = 0 := by decide +kernel
  refine ⟨fun h c => labOracle_noHost noneAtB h, hs, hp, fun hG => ?_⟩
  obtain ⟨e, he, hw, hreal⟩ := hp
  obtain ⟨h₀, h₁, hrun⟩ := List.append_of_mem he
  exact hreal (Or.inr ((hG h₀ e h₁ hrun).2 hw).1)

end Rdqm
end MqResiliency
