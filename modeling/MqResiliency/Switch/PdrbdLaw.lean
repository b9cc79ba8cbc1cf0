/-
# The law of the DR switch

Against any oracle, the commands that the switch has issued keep a law: a
planned switch changes nothing before the source's demote and promotes the
target only after the source was read Secondary and the target in sync; a
forced one stays away from the source and promotes only a target that was read
promotable. The node that a site's DR clone runs on comes from that site's
`crm_mon`, so the law is about oracles whose `crm_mon` names nodes of the site
that was asked (`Truthful`).

`pre` is the condition that each command meets when it is issued; every task
keeps it, given what the tasks before it have read.
-/
import MqResiliency.Switch.Pdrbd

namespace MqResiliency
namespace Pdrbd

open Prog Re Py

/-! ### Kinds of commands and exchanges -/

/-- The command changes the state of a node or of a site's cluster. -/
def What.changes : What → Bool
  | crmMon _ | status _ | score _ => false
  | primaryForce _ | secondary _ | targetRole _ _ | drRole _ _ => true
  | defineDrill _ | putDrill _ _ | getDrill _ => true

/-- The RPO-0 seed. -/
def What.seeds : What → Bool
  | defineDrill _ | putDrill _ _ => true
  | _ => false

/-- The command sets the DR clone's target-role. -/
def What.sets (role : Role) : What → Bool
  | targetRole r _ => r = role
  | _ => false

theorem What.changes_of_sets {role : Role} {w : What} (h : w.sets role = true) : w.changes = true := by
  cases w <;> simp_all [sets, changes]

/-- A command and what it came to. -/
abbrev Event : Type := Exchange Cmd Ans

section
variable (alnum : Char → Bool) (inv : Inventory) (v : Vars)

/-- At the site, the command was answered so. -/
def Came (site : Site) (what : What → Prop) (good : Ran → Prop) (e : Event) : Prop :=
  e.1.node ∈ inv.groups site ∧ what e.1.what ∧ ∃ r, e.2 = some r ∧ good r

/-- The site's DR clone was set to the role. -/
def WasSet (site : Site) (role : Role) : Event → Prop := Came inv site (·.sets role = true) (·.rc = 0)

/-- The source's DR resource was read as exactly Secondary. -/
def ReadSecondary : Event → Prop :=
  Came inv v.drSrc (· = .status v.pdrbdDrRes)
    fun r => r.rc = 0 ∧ findall (drbdRoleRe alnum) r.stdout = ["Secondary".toList]

/-- The target was read with its one disk UpToDate, its one link Connected and
the peer disk UpToDate. -/
def ReadInSync : Event → Prop :=
  Came inv v.drDst (· = .status v.pdrbdDrRes) fun r => r.rc = 0 ∧ (parseDst alnum r.stdout).InSync

/-- The target was read UpToDate, Secondary and quorate. -/
def ReadPromotable : Event → Prop :=
  Came inv v.drDst (· = .status v.pdrbdDrRes) fun r => r.rc = 0 ∧ Promotable alnum r.stdout

/-- The target's DR resource was read Primary. -/
def ReadPrimary : Event → Prop :=
  Came inv v.drDst (· = .status v.pdrbdDrRes) (rolePrimary ·.stdout = true)

/-- The queue manager was read Started at the target. -/
def ReadStarted : Event → Prop :=
  Came inv v.drDst (· = .crmMon false) fun r => r.rc = 0 ∧ qmStarted r.stdout = true

/-- What a planned switch has read and done before it promotes. -/
def plannedSteps : List (Event → Prop) :=
  [ReadInSync alnum inv v, WasSet inv v.drSrc .unpromoted, ReadSecondary alnum inv v, ReadInSync alnum inv v]

/-- The drill's token was retrieved at the target. -/
def ReadToken : Event → Prop :=
  Came inv v.drDst (· = .getDrill (v.qmName.getD [])) fun r =>
    r.rc = 0 ∧ contains r.stdout v.rpo0Token = true

/-- What a successful switch ends with. -/
def finalSteps : List (Event → Prop) :=
  [WasSet inv v.drDst .promoted, ReadPrimary inv v, ReadStarted inv v] ++
    if v.rpo0Drill then [ReadToken inv v] else []

/-- `crm_mon` of a site, where it names one node for the DR clone in a role,
names a node of the site. -/
def Truthful (c : Cmd) (a : Ans c) : Prop :=
  c.what = .crmMon false → ∀ site, c.node ∈ inv.groups site → ∀ r, a = some r →
    ∀ role, ∀ n ∈ findall (crmRoleRe role) r.stdout, (words n).length = 1 → n ∈ inv.groups site

/-! ### The law -/

/-- What holds of a planned switch's commands. -/
structure Planned (h : History Cmd Ans) : Prop where
  /-- Without the demote, nothing but the seed was changed at either site. -/
  untouched : (∀ e ∈ h, e.1.what.sets .unpromoted = false) →
    ∀ e ∈ h, e.1.what.changes = true → e.1.what.seeds = true ∧ e.1.node ∈ inv.groups v.drSrc
  order : ∀ h₀ e h₁, h = h₀ ++ e :: h₁ → e.1.what.sets .promoted = true →
    InOrder (plannedSteps alnum inv v) h₀

/-- What holds of a forced switch's commands. -/
structure Forced (h : History Cmd Ans) : Prop where
  apart : ∀ e ∈ h, e.1.node ∉ inv.groups v.drSrc
  order : ∀ h₀ e h₁, h = h₀ ++ e :: h₁ → e.1.what.sets .promoted = true →
    InOrder [ReadPromotable alnum inv v] h₀

/-- The condition on each command when it is issued. -/
structure Pre (h : History Cmd Ans) (c : Cmd) : Prop where
  apart : v.drForce = true → c.node ∉ inv.groups v.drSrc
  untouched : v.drForce = false → c.what.changes = true →
    (c.what.seeds = true ∧ c.node ∈ inv.groups v.drSrc) ∨ c.what.sets .unpromoted = true ∨
      ∃ e ∈ h, e.1.what.sets .unpromoted = true
  target : c.what.sets .promoted = true → c.node ∈ inv.groups v.drDst
  planned : v.drForce = false → c.what.sets .promoted = true → InOrder (plannedSteps alnum inv v) h
  forced : v.drForce = true → c.what.sets .promoted = true → InOrder [ReadPromotable alnum inv v] h

variable {alnum inv v} {h : History Cmd Ans}

theorem planned_of_obeys (hf : v.drForce = false) (ho : ObeysAsk (Pre alnum inv v) h) :
    Planned alnum inv v h := by
  constructor
  · intro hno e he hc
    obtain ⟨h₀, h₁, rfl⟩ := List.append_of_mem he
    have hpre := (ho h₀ e h₁ rfl).untouched hf hc
    have hno' := hno e he
    rcases hpre with hs | hu | ⟨e', he', hu⟩
    · exact hs
    · rw [hno'] at hu; exact absurd hu Bool.false_ne_true
    · rw [hno e' (List.mem_append_left _ he')] at hu; exact absurd hu Bool.false_ne_true
  · exact fun h₀ e h₁ heq hs => (ho h₀ e h₁ heq).planned hf hs

theorem forced_of_obeys (hf : v.drForce = true) (ho : ObeysAsk (Pre alnum inv v) h) :
    Forced alnum inv v h := by
  constructor
  · intro e he
    obtain ⟨h₀, h₁, rfl⟩ := List.append_of_mem he
    exact (ho h₀ e h₁ rfl).apart hf
  · exact fun h₀ e h₁ heq hs => (ho h₀ e h₁ heq).forced hf hs

/-- A node that the path may contact: a forced switch only the target's. -/
def Near (inv : Inventory) (v : Vars) (node : Str) : Prop := v.drForce = true → node ∈ inv.groups v.drDst

theorem Near.apart {node : Str} (hn : Near inv v node) (hf : v.drForce = true) :
    node ∉ inv.groups v.drSrc := inv.not_mem v.src_ne_dst.symm (hn hf)

/-- What a command that promotes nothing has to meet. -/
theorem pre_of_not_promote {c : Cmd} (hw : c.what.sets .promoted = false)
    (ha : v.drForce = true → c.node ∉ inv.groups v.drSrc)
    (hu : v.drForce = false → c.what.changes = true →
      (c.what.seeds = true ∧ c.node ∈ inv.groups v.drSrc) ∨ c.what.sets .unpromoted = true ∨
        ∃ e ∈ h, e.1.what.sets .unpromoted = true) : Pre alnum inv v h c := by
  have hs : c.what.sets .promoted ≠ true := by simp [hw]
  exact ⟨ha, hu, fun hp => absurd hp hs, fun _ hp => absurd hp hs, fun _ hp => absurd hp hs⟩

/-- Reading is always allowed. -/
theorem pre_read {node : Str} {w : What} (hn : Near inv v node) (hw : w.changes = false) :
    Pre alnum inv v h ⟨node, w⟩ := by
  have hs : w.sets .promoted = false := by
    by_contra hs
    rw [What.changes_of_sets (Bool.of_not_eq_false hs)] at hw
    exact absurd hw (by decide)
  exact pre_of_not_promote hs hn.apart fun _ hc => absurd (hw ▸ hc) (by decide)

/-- So is a change other than a promote after the demote, or on the forced path. -/
theorem pre_change {node : Str} {w : What} (hn : Near inv v node) (hw : w.sets .promoted = false)
    (hd : v.drForce = false → ∃ e ∈ h, e.1.what.sets .unpromoted = true) :
    Pre alnum inv v h ⟨node, w⟩ :=
  pre_of_not_promote hw hn.apart fun hf _ => Or.inr (Or.inr (hd hf))

/-- A planned switch may contact any node. -/
theorem near_of_planned {node : Str} (hf : v.drForce = false) : Near inv v node :=
  fun hf' => absurd (hf.symm.trans hf') Bool.false_ne_true

/-! ### The tasks keep it -/

/-- From `h` on, the tasks issue allowed commands only and end in `Q`. -/
abbrev Keeps (alnum : Char → Bool) (inv : Inventory) (v : Vars) {α : Type} (p : Tasks α)
    (Q : α → History Cmd Ans → Prop) (h : History Cmd Ans) : Prop :=
  p.wp (Hist (Truthful inv)) (ObeysAsk (Pre alnum inv v)) Q (fun _ _ => True) h

variable {t : Task} {node : Str} {w : What} {site : Site} {α : Type}

theorem keeps_sh {Q : Ran → History Cmd Ans → Prop} (hI : ObeysAsk (Pre alnum inv v) h)
    (hpre : Pre alnum inv v h ⟨node, w⟩)
    (hQ : ∀ r : Ran, Truthful inv ⟨node, w⟩ (some r) → ObeysAsk (Pre alnum inv v) (h ++ [⟨⟨node, w⟩, some r⟩]) →
      Q r (h ++ [⟨⟨node, w⟩, some r⟩])) : Keeps alnum inv v (sh t node w) Q h := by
  unfold Keeps sh
  rw [wp_bind]
  refine wp_ask_obeys hI hpre fun a ha hI' => ?_
  cases a with
  | none => trivial
  | some r => exact hQ r ha hI'

theorem keeps_assert {Q : Unit → History Cmd Ans → Prop} {that : Prop} [Decidable that]
    (hQ : that → Q () h) : Keeps alnum inv v (assert t that) Q h := by
  unfold Keeps assert
  split
  · exact hQ ‹_›
  · trivial

theorem keeps_onlyWhen {Q : Unit → History Cmd Ans → Prop} {c : Prop} [Decidable c] {p : Tasks Unit}
    (hp : c → Keeps alnum inv v p Q h) (hQ : ¬ c → Q () h) : Keeps alnum inv v (onlyWhen c p) Q h := by
  unfold Keeps onlyWhen
  split
  · exact hp ‹_›
  · exact hQ ‹_›

/-- A script's refusal: it reports and fails. -/
theorem keeps_refuse {Q : Unit → History Cmd Ans → Prop} {c : Prop} [Decidable c]
    (hI : ObeysAsk (Pre alnum inv v) h) (hpre : Pre alnum inv v h ⟨node, w⟩) (hQ : ¬ c → Q () h) :
    Keeps alnum inv v (onlyWhen c do let _ ← sh t node w; throw t) Q h := by
  refine keeps_onlyWhen (fun _ => ?_) hQ
  unfold Keeps
  rw [wp_bind]
  exact keeps_sh hI hpre fun _ _ _ => trivial

theorem keeps_command {Q : Ran → History Cmd Ans → Prop} (hI : ObeysAsk (Pre alnum inv v) h)
    (hpre : Pre alnum inv v h ⟨node, w⟩)
    (hQ : ∀ r : Ran, r.rc = 0 → Truthful inv ⟨node, w⟩ (some r) →
      ObeysAsk (Pre alnum inv v) (h ++ [⟨⟨node, w⟩, some r⟩]) → Q r (h ++ [⟨⟨node, w⟩, some r⟩])) :
    Keeps alnum inv v (command t node w) Q h := by
  unfold Keeps command
  rw [wp_bind]
  refine keeps_sh hI hpre fun r hr hI' => ?_
  rw [wp_bind]
  exact keeps_assert fun hrc => hQ r hrc hr hI'

theorem keeps_firstOf {Q : Str → History Cmd Ans → Prop} (hQ : ∀ n ∈ inv.groups site, Q n h) :
    Keeps alnum inv v (firstOf inv t site) Q h := by
  unfold Keeps firstOf
  split
  · rename_i n ns hg
    exact hQ n (by rw [hg]; exact List.mem_cons_self)
  · trivial

/-- The member found is a node of the site. -/
theorem keeps_findMember {crm one : Task} {role : Role} {Q : Str → History Cmd Ans → Prop}
    (hsite : v.drForce = true → site = v.drDst) (hI : ObeysAsk (Pre alnum inv v) h)
    (hQ : ∀ n ∈ inv.groups site, ∀ h', h <+: h' → ObeysAsk (Pre alnum inv v) h' → Q n h') :
    Keeps alnum inv v (findMember inv crm one site role) Q h := by
  unfold Keeps findMember
  rw [wp_bind]
  refine keeps_firstOf fun first hfirst => ?_
  have hn : Near inv v first := fun hf => hsite hf ▸ hfirst
  rw [wp_bind]
  refine keeps_command hI (pre_read hn rfl) fun r _ hr hI' => ?_
  split
  · rename_i n hfind
    rw [wp_bind]
    refine keeps_assert fun hone => ?_
    have hmem : n ∈ inv.groups site := hr rfl site hfirst r rfl role n (by rw [hfind]; exact List.mem_cons_self) hone
    exact hQ n hmem _ (List.prefix_append _ _) hI'
  · trivial

/-- The marker may follow the role, and the role was set. -/
theorem keeps_setRole {role : Role} {wait value : ℕ} {Q : Unit → History Cmd Ans → Prop}
    (hsite : v.drForce = true → site = v.drDst) (hI : ObeysAsk (Pre alnum inv v) h)
    (hpre : ∀ n ∈ inv.groups site, Pre alnum inv v h ⟨n, .targetRole role wait⟩)
    (hd : v.drForce = false → role = .unpromoted ∨ ∃ e ∈ h, e.1.what.sets .unpromoted = true)
    (hQ : ∀ e, WasSet inv site role e → ∀ h', h ++ [e] <+: h' → ObeysAsk (Pre alnum inv v) h' → Q () h') :
    Keeps alnum inv v (setRole inv v t site role wait value) Q h := by
  unfold Keeps setRole
  rw [wp_bind]
  refine keeps_firstOf fun first hfirst => ?_
  have hn : Near inv v first := fun hf => hsite hf ▸ hfirst
  rw [wp_bind]
  refine keeps_sh hI (hpre first hfirst) fun r _ hI' => ?_
  set e : Event := ⟨⟨first, .targetRole role wait⟩, some r⟩ with he
  rw [wp_bind]
  refine keeps_refuse hI' (pre_read hn rfl) fun hrc => ?_
  have hset : e.1.what.sets role = true := by simp [he, What.sets]
  have hd' : v.drForce = false → ∃ e' ∈ h ++ [e], e'.1.what.sets .unpromoted = true := by
    intro hf
    rcases hd hf with rfl | ⟨e', hm, he'⟩
    · exact ⟨e, List.mem_append_right _ (List.mem_singleton.mpr rfl), hset⟩
    · exact ⟨e', List.mem_append_left _ hm, he'⟩
  have hw : (What.drRole v.pdrbdRes value).sets .promoted = false := rfl
  rw [wp_bind]
  refine keeps_command hI' (pre_change hn hw hd') fun r' _ _ hI'' => ?_
  exact hQ e ⟨hfirst, hset, r, rfl, not_not.mp hrc⟩ _ (List.prefix_append _ _) hI''

/-! ### The source's tasks -/

theorem keeps_seed {Q : Unit → History Cmd Ans → Prop} (hf : v.drForce = false)
    (hnode : node ∈ inv.groups v.drSrc) (hI : ObeysAsk (Pre alnum inv v) h)
    (hQ : ∀ h', h <+: h' → ObeysAsk (Pre alnum inv v) h' → Q () h') :
    Keeps alnum inv v (rpo0Seed v node) Q h := by
  have hpre : ∀ {g : History Cmd Ans} {w : What}, w.seeds = true → Pre alnum inv v g ⟨node, w⟩ := by
    intro g w hw
    have hs : w.sets .promoted = false := by cases w <;> simp_all [What.seeds, What.sets]
    exact pre_of_not_promote hs (near_of_planned hf).apart fun _ _ => Or.inl ⟨hw, hnode⟩
  unfold Keeps rpo0Seed
  rw [wp_bind]
  refine keeps_command hI (hpre rfl) fun r _ _ hI' => ?_
  rw [wp_bind]
  refine keeps_command hI' (hpre rfl) fun r' _ _ hI'' => ?_
  exact hQ _ ((List.prefix_append _ _).trans (List.prefix_append _ _)) hI''

/-- The `until` task ends with the source read Secondary. -/
theorem keeps_untilSecondary {Q : Unit → History Cmd Ans → Prop} (hn : Near inv v node)
    (hnode : node ∈ inv.groups v.drSrc)
    (hQ : ∀ h₁ e, h <+: h₁ → ReadSecondary alnum inv v e → ObeysAsk (Pre alnum inv v) (h₁ ++ [e]) →
      Q () (h₁ ++ [e])) :
    ∀ (n : ℕ) (h₁ : History Cmd Ans), h <+: h₁ → ObeysAsk (Pre alnum inv v) h₁ →
      Keeps alnum inv v (untilSecondary alnum v node n) Q h₁
  | 0, _, _, _ => trivial
  | n + 1, h₁, hp, hI => by
    unfold Keeps untilSecondary
    rw [wp_bind]
    refine keeps_sh hI (pre_read hn rfl) fun r _ hI' => ?_
    split
    · rename_i hread
      exact hQ h₁ _ hp ⟨hnode, rfl, r, rfl, hread⟩ hI'
    · exact keeps_untilSecondary hn hnode hQ n _ (hp.trans (List.prefix_append _ _)) hI'

/-- **The source's tasks**, loaded on a planned switch only, end with the
source demoted and then read Secondary. -/
theorem keeps_sourceTasks {Q : Unit → History Cmd Ans → Prop} (hf : v.drForce = false)
    {kinds : List (Event → Prop)} (hk : InOrder kinds h) (hI : ObeysAsk (Pre alnum inv v) h)
    (hQ : ∀ h', h <+: h' → ObeysAsk (Pre alnum inv v) h' →
      InOrder (kinds ++ [WasSet inv v.drSrc .unpromoted, ReadSecondary alnum inv v]) h' → Q () h') :
    Keeps alnum inv v (sourceTasks alnum inv v) Q h := by
  have hno : v.drForce ≠ true := by simp [hf]
  unfold Keeps sourceTasks
  rw [wp_bind]
  refine keeps_findMember (fun hf' => absurd hf' hno) hI fun node hnode h₁ hp₁ hI₁ => ?_
  have hpre : ∀ h₂, ∀ n ∈ inv.groups v.drSrc, Pre alnum inv v h₂ ⟨n, .targetRole .unpromoted 300⟩ :=
    fun _ n _ => pre_of_not_promote rfl (near_of_planned hf).apart fun _ _ => Or.inr (Or.inl rfl)
  have hrest : ∀ h₂, h₁ <+: h₂ → ObeysAsk (Pre alnum inv v) h₂ →
      Keeps alnum inv v (setRole inv v .demote v.drSrc .unpromoted 300 2 >>= fun _ =>
        untilSecondary alnum v node attempts) Q h₂ := by
    intro h₂ hp₂ hI₂
    unfold Keeps
    rw [wp_bind]
    refine keeps_setRole (fun hf' => absurd hf' hno) hI₂ (hpre h₂) (fun _ => Or.inl rfl)
      fun e hset h₃ hp₃ hI₃ => ?_
    refine keeps_untilSecondary (near_of_planned hf) hnode (fun h₄ e' hp₄ hread hI₄ => ?_) attempts h₃
      (List.prefix_refl h₃) hI₃
    have hdemoted : InOrder (kinds ++ [WasSet inv v.drSrc .unpromoted]) h₄ :=
      (((hk.mono hp₁).mono hp₂).concat hset).mono (hp₃.trans hp₄)
    have hall := hdemoted.concat hread
    rw [List.append_assoc] at hall
    have hp : h <+: h₄ ++ [e'] := ((hp₁.trans hp₂).trans (List.prefix_append _ _)).trans
      ((hp₃.trans hp₄).trans (List.prefix_append _ _))
    exact hQ _ hp hI₄ hall
  rw [wp_bind]
  exact keeps_onlyWhen (fun _ => keeps_seed hf hnode hI₁ hrest) fun _ => hrest h₁ (List.prefix_refl h₁) hI₁

/-! ### The target's tasks -/

theorem near_of_mem (hnode : node ∈ inv.groups v.drDst) : Near inv v node := fun _ => hnode

theorem InSync_of_dstGate {s : DstState} (hf : v.drForce = false) (hg : s.dstGate v.drForce) : s.InSync := by
  rcases hg with hg | ⟨hf', -⟩
  · exact hg
  · exact absurd (hf.symm.trans hf') Bool.false_ne_true

theorem keeps_preFlight {Q : Str → History Cmd Ans → Prop} (hI : ObeysAsk (Pre alnum inv v) h)
    (hQ : ∀ node ∈ inv.groups v.drDst, ∀ h', h <+: h' → ObeysAsk (Pre alnum inv v) h' →
      (v.drForce = false → InOrder [ReadInSync alnum inv v] h') → Q node h') :
    Keeps alnum inv v (preFlight alnum inv v) Q h := by
  unfold Keeps preFlight
  rw [wp_bind]
  refine keeps_findMember (fun _ => rfl) hI fun node hnode h₁ hp₁ hI₁ => ?_
  rw [wp_bind]
  refine keeps_command hI₁ (pre_read (near_of_mem hnode) rfl) fun r hrc _ hI₂ => ?_
  rw [wp_bind]
  refine keeps_assert fun hgate => ?_
  refine hQ node hnode _ (hp₁.trans (List.prefix_append _ _)) hI₂ fun hf => ?_
  exact inOrder_nil.concat ⟨hnode, rfl, r, rfl, hrc, InSync_of_dstGate hf hgate⟩

theorem keeps_reAssert {Q : List Str → History Cmd Ans → Prop} (hnode : node ∈ inv.groups v.drDst)
    (hI : ObeysAsk (Pre alnum inv v) h)
    (hQ : ∀ disk h', h <+: h' → ObeysAsk (Pre alnum inv v) h' →
      (v.drForce = false → ∀ kinds, InOrder kinds h → InOrder (kinds ++ [ReadInSync alnum inv v]) h') →
      Q disk h') : Keeps alnum inv v (reAssert alnum v node) Q h := by
  unfold Keeps reAssert
  rw [wp_bind]
  refine keeps_command hI (pre_read (near_of_mem hnode) rfl) fun r hrc _ hI' => ?_
  rw [wp_bind]
  refine keeps_assert fun hgate => ?_
  refine hQ _ _ (List.prefix_append _ _) hI' fun hf kinds hk => ?_
  exact hk.concat ⟨hnode, rfl, r, rfl, hrc, InSync_of_dstGate hf hgate⟩

theorem keeps_forceTask {Q : Unit → History Cmd Ans → Prop} (hf : v.drForce = true)
    (hnode : node ∈ inv.groups v.drDst) (hI : ObeysAsk (Pre alnum inv v) h)
    (hQ : ∀ h', h <+: h' → ObeysAsk (Pre alnum inv v) h' → Q () h') :
    Keeps alnum inv v (forceTask v node) Q h := by
  have hn : Near inv v node := near_of_mem hnode
  have hd : ∀ g : History Cmd Ans, v.drForce = false → ∃ e ∈ g, e.1.what.sets .unpromoted = true :=
    fun _ hf' => absurd (hf'.symm.trans hf) Bool.false_ne_true
  unfold Keeps forceTask
  rw [wp_bind]
  refine keeps_sh hI (pre_change hn rfl (hd _)) fun r _ hI₁ => ?_
  rw [wp_bind]
  refine keeps_refuse hI₁ (pre_read hn rfl) fun _ => ?_
  rw [wp_bind]
  refine keeps_sh hI₁ (pre_change hn rfl (hd _)) fun r' _ hI₂ => ?_
  refine keeps_refuse hI₂ (pre_read hn rfl) fun _ => ?_
  exact hQ _ ((List.prefix_append _ _).trans (List.prefix_append _ _)) hI₂

theorem keeps_waitScore {Q : Unit → History Cmd Ans → Prop} (hn : Near inv v node)
    (hQ : ∀ h', h <+: h' → ObeysAsk (Pre alnum inv v) h' → Q () h') :
    ∀ (n : ℕ) (h₁ : History Cmd Ans), h <+: h₁ → ObeysAsk (Pre alnum inv v) h₁ →
      Keeps alnum inv v (waitScore v node n) Q h₁
  | 0, h₁, _, hI => by
    unfold Keeps waitScore
    rw [wp_bind]
    refine keeps_sh hI (pre_read hn rfl) fun _ _ hI' => ?_
    rw [wp_bind]
    exact keeps_sh hI' (pre_read hn rfl) fun _ _ _ => trivial
  | n + 1, h₁, hp, hI => by
    unfold Keeps waitScore
    rw [wp_bind]
    refine keeps_sh hI (pre_read hn rfl) fun r _ hI' => ?_
    have hp' := hp.trans (List.prefix_append h₁ [⟨⟨node, What.score node⟩, some r⟩])
    split
    · exact hQ _ hp' hI'
    · exact keeps_waitScore hn hQ n _ hp' hI'

/-- The forced path ends with the target read promotable. -/
theorem keeps_forcedTasks {Q : Unit → History Cmd Ans → Prop} (hf : v.drForce = true)
    (hnode : node ∈ inv.groups v.drDst) (disk : List Str) (hI : ObeysAsk (Pre alnum inv v) h)
    (hQ : ∀ h', h <+: h' → ObeysAsk (Pre alnum inv v) h' → InOrder [ReadPromotable alnum inv v] h' → Q () h') :
    Keeps alnum inv v (forcedTasks alnum v node disk) Q h := by
  have hn : Near inv v node := near_of_mem hnode
  have hrest : ∀ h₁, h <+: h₁ → ObeysAsk (Pre alnum inv v) h₁ →
      Keeps alnum inv v (command .forcedState node (.status v.pdrbdDrRes) >>= fun r =>
        assert .assertForced (Promotable alnum r.stdout) >>= fun _ => waitScore v node scoreTries) Q h₁ := by
    intro h₁ hp₁ hI₁
    unfold Keeps
    rw [wp_bind]
    refine keeps_command hI₁ (pre_read hn rfl) fun r hrc _ hI₂ => ?_
    rw [wp_bind]
    refine keeps_assert fun hprom => ?_
    refine keeps_waitScore hn (fun h₃ hp₃ hI₃ => ?_) scoreTries _ (List.prefix_refl _) hI₂
    have hread : InOrder [ReadPromotable alnum inv v] (h₁ ++ [⟨⟨node, .status v.pdrbdDrRes⟩, some r⟩]) :=
      inOrder_nil.concat ⟨hnode, rfl, r, rfl, hrc, hprom⟩
    exact hQ h₃ ((hp₁.trans (List.prefix_append _ _)).trans hp₃) hI₃ (hread.mono hp₃)
  unfold Keeps forcedTasks
  rw [wp_bind]
  exact keeps_onlyWhen (fun _ => keeps_forceTask hf hnode hI hrest) fun _ => hrest h (List.prefix_refl h) hI

theorem keeps_assertPrimary {Q : Unit → History Cmd Ans → Prop} (hnode : node ∈ inv.groups v.drDst)
    {kinds : List (Event → Prop)} (hk : InOrder kinds h) (hI : ObeysAsk (Pre alnum inv v) h)
    (hQ : ∀ h', h <+: h' → ObeysAsk (Pre alnum inv v) h' →
      InOrder (kinds ++ [ReadPrimary inv v, ReadStarted inv v]) h' → Q () h') :
    Keeps alnum inv v (assertPrimary v node) Q h := by
  have hn : Near inv v node := near_of_mem hnode
  unfold Keeps assertPrimary
  rw [wp_bind]
  refine keeps_sh hI (pre_read hn rfl) fun st _ hI₁ => ?_
  rw [wp_bind]
  refine keeps_refuse hI₁ (pre_read hn rfl) fun hprim => ?_
  have hread : ReadPrimary inv v ⟨⟨node, .status v.pdrbdDrRes⟩, some st⟩ :=
    ⟨hnode, rfl, st, rfl, not_not.mp hprim⟩
  rw [wp_bind]
  refine keeps_sh hI₁ (pre_read hn rfl) fun r _ hI₂ => ?_
  refine keeps_refuse hI₂ (pre_read hn rfl) fun hstart => ?_
  have hrun : ReadStarted inv v ⟨⟨node, .crmMon false⟩, some r⟩ := ⟨hnode, rfl, r, rfl, not_not.mp hstart⟩
  have hall := (hk.concat hread).concat hrun
  rw [List.append_assoc] at hall
  exact hQ _ ((List.prefix_append _ _).trans (List.prefix_append _ _)) hI₂ hall

/-- The promote comes only after what allows it, and a switch that ends well
saw the target Primary and Started after it. -/
theorem keeps_promoteTasks (hnode : node ∈ inv.groups v.drDst) (hI : ObeysAsk (Pre alnum inv v) h)
    (hplan : v.drForce = false → InOrder (plannedSteps alnum inv v) h)
    (hforce : v.drForce = true → InOrder [ReadPromotable alnum inv v] h) :
    Keeps alnum inv v (promoteTasks inv v node) (fun _ h' => InOrder (finalSteps inv v) h') h := by
  have hd : v.drForce = false → ∃ e ∈ h, e.1.what.sets .unpromoted = true := by
    intro hf
    have hmem : WasSet inv v.drSrc .unpromoted ∈ plannedSteps alnum inv v := by
      simp only [plannedSteps, List.mem_cons, true_or, or_true]
    obtain ⟨e, he, -, hset, -⟩ := (hplan hf).exists_mem hmem
    exact ⟨e, he, hset⟩
  have hpre : ∀ n ∈ inv.groups v.drDst, Pre alnum inv v h ⟨n, .targetRole .promoted 600⟩ :=
    fun n hn => ⟨(near_of_mem hn).apart, fun hf _ => Or.inr (Or.inr (hd hf)), fun _ => hn,
      fun hf _ => hplan hf, fun hf _ => hforce hf⟩
  unfold Keeps promoteTasks
  rw [wp_bind]
  refine keeps_setRole (fun _ => rfl) hI hpre (fun hf => Or.inr (hd hf)) fun e hset h₁ hp₁ hI₁ => ?_
  have hdone : InOrder [WasSet inv v.drDst .promoted] h₁ := (inOrder_nil.concat hset).mono hp₁
  rw [wp_bind]
  refine keeps_assertPrimary hnode hdone hI₁ fun h₂ hp₂ hI₂ hfinal => ?_
  refine keeps_onlyWhen (fun hdrill => ?_) fun hno => by rwa [finalSteps, if_neg hno, List.append_nil]
  have hd₂ : v.drForce = false → ∃ e ∈ h₂, e.1.what.sets .unpromoted = true := by
    intro hf
    obtain ⟨e', he', hu⟩ := hd hf
    exact ⟨e', (((List.prefix_append h [e]).trans hp₁).trans hp₂).subset he', hu⟩
  unfold Keeps rpo0Verify
  rw [wp_bind]
  refine keeps_command hI₂ (pre_change (near_of_mem hnode) rfl hd₂) fun r hrc _ _ => ?_
  refine keeps_assert fun htoken => ?_
  rw [finalSteps, if_pos hdrill]
  exact hfinal.concat ⟨hnode, rfl, r, rfl, hrc, htoken⟩

/-! ### Every run -/

/-- The switch keeps its law, and ends well only with the target Primary. -/
theorem keeps_drSwitch :
    Keeps alnum inv v (drSwitch alnum inv v) (fun _ h' => InOrder (finalSteps inv v) h') [] := by
  unfold Keeps drSwitch resolveDirection
  rw [wp_bind, wp_bind]
  refine keeps_assert fun _ => keeps_assert fun _ => ?_
  rw [wp_bind]
  refine keeps_preFlight obeys_nil fun node hnode h₁ _ hI₁ hread => ?_
  have hend : ∀ h₂, ObeysAsk (Pre alnum inv v) h₂ →
      (v.drForce = false → InOrder (plannedSteps alnum inv v).dropLast h₂) →
      Keeps alnum inv v (reAssert alnum v node >>= fun disk =>
        onlyWhen v.drForce (forcedTasks alnum v node disk) >>= fun _ => promoteTasks inv v node)
        (fun _ h' => InOrder (finalSteps inv v) h') h₂ := by
    intro h₂ hI₂ hplan
    unfold Keeps
    rw [wp_bind]
    refine keeps_reAssert hnode hI₂ fun disk h₃ _ hI₃ hsync => ?_
    rw [wp_bind]
    refine keeps_onlyWhen (fun hf => ?_) fun hf => ?_
    · refine keeps_forcedTasks hf hnode disk hI₃ fun h₄ _ hI₄ hprom => ?_
      exact keeps_promoteTasks hnode hI₄ (fun hf' => absurd (hf'.symm.trans hf) Bool.false_ne_true)
        fun _ => hprom
    · exact keeps_promoteTasks hnode hI₃ (fun hf' => hsync hf' _ (hplan hf')) fun hf' => absurd hf' hf
  rw [wp_bind]
  refine keeps_onlyWhen (fun hf => ?_) fun hf => hend h₁ hI₁ fun hf' => absurd hf' hf
  exact keeps_sourceTasks hf (hread hf) hI₁ fun h₂ _ hI₂ hdone => hend h₂ hI₂ fun _ => hdone

variable (alnum inv v)

/-- **The law of the DR switch.** Against every oracle whose `crm_mon` names
nodes of the site asked, at every point of the run: a planned switch keeps
`Planned`, a forced one `Forced`, neither asks for Promoted at the source; and
a run succeeds only with the target promoted, then read Primary and Started. -/
theorem switch_law {o : Oracle Cmd Ans} (ho : ∀ h c, Truthful inv c (o h c)) :
    (∀ h, h <+: ((drSwitch alnum inv v).run o []).1 →
      (v.drForce = false → Planned alnum inv v h) ∧ (v.drForce = true → Forced alnum inv v h) ∧
        ∀ e ∈ h, e.1.what.sets .promoted = true →
          e.1.node ∈ inv.groups v.drDst ∧ e.1.node ∉ inv.groups v.drSrc) ∧
      (((drSwitch alnum inv v).run o []).2 = some (.ok ()) →
        InOrder (finalSteps inv v) ((drSwitch alnum inv v).run o []).1) := by
  have hkeeps : Keeps alnum inv v (drSwitch alnum inv v) (fun _ h' => InOrder (finalSteps inv v) h') [] :=
    keeps_drSwitch
  obtain ⟨hlaw, hend, -⟩ := run_obeys ho hkeeps
  refine ⟨fun h hp => ?_, hend ()⟩
  have hh : ObeysAsk (Pre alnum inv v) h := hlaw.of_isPrefix hp
  refine ⟨fun hf => planned_of_obeys hf hh, fun hf => forced_of_obeys hf hh, fun e he hs => ?_⟩
  obtain ⟨h₀, h₁, rfl⟩ := List.append_of_mem he
  have hdst := (hh h₀ e h₁ rfl).target hs
  exact ⟨hdst, inv.not_mem v.src_ne_dst.symm hdst⟩

end

/-! ### In the lab

Two sites of three nodes; `pdrbd-a1` and `pdrbd-b1` hold the DR resource. -/

def labInventory : Inventory where
  groups
    | .a => ["pdrbd-a1".toList, "pdrbd-a2".toList, "pdrbd-a3".toList]
    | .b => ["pdrbd-b1".toList, "pdrbd-b2".toList, "pdrbd-b3".toList]
  disjoint := by decide

/-- Site A to site B: planned with the drill, or forced. -/
def labVars (drForce : Bool) : Vars :=
  ⟨some "a2b".toList, some "PDRBDAPP".toList, drForce, !drForce, "RPO0-1".toList⟩

def labCrm (role node : String) : Str :=
  "  * Clone Set: drbd_dr_qm-clone [drbd_dr_qm] (promotable):\n".toList ++
    "    * ".toList ++ role.toList ++ ": [ ".toList ++ node.toList ++ " ]\n".toList ++
    "    * mq_qm\t(systemd:mq-PDRBDAPP):\t Started pdrbd-b1\n".toList

def labStatus (role : String) : Str :=
  "pdrbdapp.dr node-id:1 role:".toList ++ role.toList ++ " suspended:no\n".toList ++
    "  volume:0 minor:7001 disk:UpToDate quorum:yes\n".toList ++
    "  peer node-id:0 connection:Connected\n".toList ++
    "    volume:0 replication:Established peer-disk:UpToDate\n".toList

/-- `crm_mon` before the switch. -/
def labCrmAt : Site → Str
  | .a => labCrm "Promoted" "pdrbd-a1"
  | .b => labCrm "Unpromoted" "pdrbd-b1"

/-- Both sites healthy; the DR resource is Primary from the promote on. -/
def labOracle : Oracle Cmd Ans := fun h c =>
  match c.what with
  | .crmMon _ => some ⟨0, labCrmAt (if c.node ∈ labInventory.groups .a then .a else .b)⟩
  | .status _ => some ⟨0, labStatus (if h.any (·.1.what.sets .promoted) then "Primary" else "Secondary")⟩
  | .getDrill _ => some ⟨0, "message <RPO0-1>\n".toList⟩
  | _ => some ⟨0, []⟩

/-- No characters beyond ASCII are alphanumeric. -/
def asciiOnly : Char → Bool := fun _ => false

theorem labCrm_members (site : Site) (role : Role) :
    ∀ n ∈ findall (crmRoleRe role) (labCrmAt site), n ∈ labInventory.groups site := by
  cases site <;> cases role <;> decide +kernel

theorem labOracle_truthful (h : History Cmd Ans) (c : Cmd) : Truthful labInventory c (labOracle h c) := by
  intro hw site hsite r hr role n hn _
  have hout : r.stdout = labCrmAt site := by
    simp only [labOracle, hw, Option.some.injEq] at hr
    rw [← hr]
    cases site with
    | a => rw [if_pos hsite]
    | b => rw [if_neg (labInventory.not_mem (by decide) hsite)]
  rw [hout] at hn
  exact labCrm_members site role n hn

theorem switch_law_lab : InOrder (finalSteps labInventory (labVars false))
    ((drSwitch asciiOnly labInventory (labVars false)).run labOracle []).1 :=
  (switch_law asciiOnly labInventory (labVars false) labOracle_truthful).2 (by decide +kernel)

/-- A `crm_mon` at the target that names a node of the source, and then silence. -/
def strayOracle : Oracle Cmd Ans := fun _ c =>
  match c.what with
  | .crmMon _ => some ⟨0, labCrm "Unpromoted" "pdrbd-a1"⟩
  | _ => none

/-- **A forced switch contacts the source** that the target's `crm_mon` names. -/
theorem forced_contacts_source : (labVars true).drForce = true ∧
    ∃ e ∈ ((drSwitch asciiOnly labInventory (labVars true)).run strayOracle []).1,
      e.1.node ∈ labInventory.groups (labVars true).drSrc := by
  decide +kernel

end Pdrbd
end MqResiliency
