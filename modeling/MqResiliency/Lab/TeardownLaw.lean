/-
# What a teardown takes

The laws of `mqlab teardown` over every state that a run reaches, cut off
anywhere: what the probes listed, and every answer to the steps, is arbitrary.

A stack is forgotten only when it is gone (`forgets_when_gone`), as far as the
first probe lists the domains that are live; and the run takes nothing beyond
the stack's members and the commons, and the commons only when asked to or
when no other stack counts as up (`takes_own`).
-/
import MqResiliency.Lab.Teardown

namespace MqResiliency
namespace Lab
namespace Teardown

open Prog Py

/-! ### The world -/

/-- The domains, by their guests, the commands issued, and what the probes
came to. -/
structure World : Type where
  dom : Str → Option Str
  issued : List Cmd
  probes : List Listing

/-- The guest whose domain an action removes. -/
def Action.removes : Action → Option Str
  | .destroy g => some g
  | .undefine g => some g
  | _ => none

/-- What an action may do to the domains: it touches only its own, it starts
none, and an exit status of 0 tells that the domain is gone. -/
structure Effect (a : Action) (code : ℤ) (dom dom' : Str → Option Str) : Prop where
  frame : ∀ g, a.removes ≠ some g → dom' g = dom g
  starts : ∀ g, holdsProcess (dom' g) → holdsProcess (dom g)
  stopped : ∀ g, a.removes = some g → code = 0 → holdsProcess (dom' g) = false

/-- The domains before and after a command; only actions change them. -/
def Changes : (c : Cmd) → Ans c → (Str → Option Str) → (Str → Option Str) → Prop
  | .act a, code => Effect a code
  | _, _ => fun dom dom' => dom' = dom

/-- What a command adds to the probes. -/
def listing : (c : Cmd) → Ans c → List Listing
  | .listAll, l => [l]
  | _, _ => []

/-- The surroundings. -/
structure Answers (w : World) (c : Cmd) (a : Ans c) (w' : World) : Prop where
  changes : Changes c a w.dom w'.dom
  issued : w'.issued = w.issued ++ [c]
  probes : w'.probes = w.probes ++ listing c a

/-- Commands that leave the lab as it is. -/
def Cmd.Quiet : Cmd → Prop
  | .act _ => False
  | .deleteRecord _ => False
  | _ => True

/-! ### The invariant -/

section
variable (topo : Topology) (stack : Str) (commons : Bool) (dom₀ : Str → Option Str)

/-- The first probe lists the guest's domain, if that is live. -/
def Seen (w : World) (g : Str) : Prop :=
  holdsProcess (dom₀ g) → ∃ l, w.probes.head? = some l ∧ classify l.states g ≠ .absent

/-- The second probe counts no other stack as up. -/
def LastDown (w : World) : Prop :=
  ∃ l, w.probes[1]? = some l ∧ topo.labStacks.items.any (countsAsUp topo l.states stack) = false

/-- A guest that the run may take. -/
def Mine (w : World) (g : Str) : Prop :=
  g ∈ members topo stack ∨ g ∈ commonsMembers topo ∧ (commons ∨ LastDown topo stack w)

/-- What every reachable state keeps. -/
structure Inv (w : World) : Prop where
  starts : ∀ g, holdsProcess (w.dom g) → holdsProcess (dom₀ g)
  frame : ∀ g, (∀ a, .act a ∈ w.issued → a.guest ≠ some g) → w.dom g = dom₀ g
  forgot : ∀ g, .act (.forgetMachine g) ∈ w.issued → Seen dom₀ w g → holdsProcess (w.dom g) = false
  deleted : ∀ s, .deleteRecord s ∈ w.issued →
    ∀ g ∈ members topo stack, Seen dom₀ w g → holdsProcess (w.dom g) = false
  mine : ∀ a g, .act a ∈ w.issued → a.guest = some g → Mine topo stack commons w g
  released : .act .releaseHugepages ∈ w.issued → LastDown topo stack w

/-- Before the steps run. -/
structure Fresh (w : World) : Prop where
  dom : w.dom = dom₀
  quiet : ∀ c ∈ w.issued, c.Quiet

variable {topo stack commons dom₀}

theorem Fresh.inv {w : World} (h : Fresh dom₀ w) : Inv topo stack commons dom₀ w where
  starts g hg := h.dom ▸ hg
  frame g _ := by rw [h.dom]
  forgot g hg := absurd (h.quiet _ hg) id
  deleted s hs := absurd (h.quiet _ hs) id
  mine a g ha := absurd (h.quiet _ ha) id
  released hr := absurd (h.quiet _ hr) id

theorem Fresh.ask {w w' : World} {c : Cmd} {a : Ans c} (h : Fresh dom₀ w) (hc : c.Quiet)
    (hw : Answers w c a w') : Fresh dom₀ w' where
  dom := by
    have hch := hw.changes
    cases c <;> first | exact absurd hc id | exact Eq.trans hch h.dom
  quiet d hd := by
    rw [hw.issued, List.mem_append, List.mem_singleton] at hd
    rcases hd with hd | rfl
    · exact h.quiet d hd
    · exact hc

/-! ### The plan -/

variable {α : Type} {Q : α → World → Prop}

/-- The weakest precondition for the invariant, wherever the run ends. -/
abbrev Keeps (topo : Topology) (stack : Str) (commons : Bool) (dom₀ : Str → Option Str) (p : Td α)
    (Q : α → World → Prop) (w : World) : Prop :=
  p.wp Answers (Inv topo stack commons dom₀) Q (fun _ _ => True) w

theorem keeps_fresh {w : World} {c : Cmd} {Q : Ans c → World → Prop} (hF : Fresh dom₀ w) (hc : c.Quiet)
    (hQ : ∀ a w', Fresh dom₀ w' → w'.probes = w.probes ++ listing c a → Q a w') :
    Keeps topo stack commons dom₀ (ask c) Q w := by
  unfold Keeps
  rw [wp_ask]
  intro a w' hw
  have hF' := hF.ask hc hw
  exact ⟨hF'.inv, hQ a w' hF' hw.probes⟩

theorem keeps_probeStates {w : World} {Q : Dict Str Str → World → Prop} (hF : Fresh dom₀ w)
    (hQ : ∀ (l : Listing) w', Fresh dom₀ w' → w'.probes = w.probes ++ [l] → Q l.states w') :
    Keeps topo stack commons dom₀ probeStates Q w := by
  unfold Keeps probeStates
  rw [wp_bind]
  exact keeps_fresh hF trivial fun l w' hF' hp => hQ l w' hF' hp

/-- Steps that are planned for these guests from these states. -/
inductive Planned (states : Dict Str Str) : List Str → List Step → Prop where
  | nil : Planned states [] []
  | cons {gs : List Str} {ss : List Step} (g : Str) (dir : Bool) :
      Planned states gs ss → Planned states (g :: gs) (guestSteps states g dir ++ ss)

theorem keeps_planDestroy (states : Dict Str Str) : ∀ (gs : List Str) {w : World}
    {Q : List Step × List Str → World → Prop}, Fresh dom₀ w →
    (∀ ss ns w', Fresh dom₀ w' → w'.probes = w.probes → Planned states gs ss → Q (ss, ns) w') →
    Keeps topo stack commons dom₀ (planDestroy states gs) Q w
  | [], w, Q, hF, hQ => hQ [] [] w hF rfl .nil
  | g :: gs, w, Q, hF, hQ => by
    unfold Keeps planDestroy
    rw [wp_bind]
    refine keeps_fresh hF trivial fun dir w₁ hF₁ hp₁ => ?_
    rw [wp_bind]
    refine keeps_planDestroy states gs hF₁ fun ss ns w₂ hF₂ hp₂ hs => ?_
    have hp : w₂.probes = w.probes := by rw [hp₂, hp₁]; exact List.append_nil _
    exact hQ _ _ w₂ hF₂ hp (hs.cons g dir)

theorem keeps_notes : ∀ (ts : List Str) {w : World} {Q : Unit → World → Prop}, Fresh dom₀ w →
    (∀ w', Fresh dom₀ w' → w'.probes = w.probes → Q () w') →
    Keeps topo stack commons dom₀ (notes ts) Q w
  | [], w, Q, hF, hQ => hQ w hF rfl
  | t :: ts, w, Q, hF, hQ => by
    unfold Keeps notes
    rw [wp_bind]
    refine keeps_fresh hF trivial fun _ w₁ hF₁ hp₁ => ?_
    refine keeps_notes ts hF₁ fun w₂ hF₂ hp₂ => hQ w₂ hF₂ ?_
    rw [hp₂, hp₁]
    exact List.append_nil _

/-! ### The steps -/

theorem removes_guest {a : Action} {g : Str} (h : a.removes = some g) : a.guest = some g := by
  cases a <;> first | exact h | exact absurd h (by simp [Action.removes])

theorem Effect.dead {a : Action} {code : ℤ} {dom dom' : Str → Option Str} (h : Effect a code dom dom')
    {g : Str} (hg : holdsProcess (dom g) = false) : holdsProcess (dom' g) = false :=
  Bool.eq_false_iff.mpr fun ht => Bool.eq_false_iff.mp hg (h.starts g ht)

/-- What may be run in a state. -/
structure Allowed (topo : Topology) (stack : Str) (commons : Bool) (dom₀ : Str → Option Str) (a : Action)
    (w : World) : Prop where
  mine : ∀ g, a.guest = some g → Mine topo stack commons w g
  forgets : ∀ g, a = .forgetMachine g → Seen dom₀ w g → holdsProcess (w.dom g) = false
  releases : a = .releaseHugepages → LastDown topo stack w

theorem Inv.act {w w' : World} {a : Action} {code : ℤ} (h : Inv topo stack commons dom₀ w)
    (ha : Allowed topo stack commons dom₀ a w) (hw : Answers w (.act a) code w') :
    Inv topo stack commons dom₀ w' := by
  have heff : Effect a code w.dom w'.dom := hw.changes
  have hp : w'.probes = w.probes := by rw [hw.probes]; exact List.append_nil _
  have hseen : ∀ g, Seen dom₀ w' g → Seen dom₀ w g := fun g hs => by unfold Seen; rw [← hp]; exact hs
  have hlast : LastDown topo stack w → LastDown topo stack w' := fun hl => by
    unfold LastDown; rw [hp]; exact hl
  have hmine : ∀ g, Mine topo stack commons w g → Mine topo stack commons w' g :=
    fun g hm => hm.imp id fun hc => ⟨hc.1, hc.2.imp id hlast⟩
  have hmem : ∀ c, c ∈ w'.issued → c ∈ w.issued ∨ c = .act a := fun c hc => by
    rw [hw.issued, List.mem_append, List.mem_singleton] at hc
    exact hc
  refine ⟨fun g hg => h.starts g (heff.starts g hg), fun g hg => ?_, fun g hg hs => ?_,
    fun s hs g hgm hsn => ?_, fun b g hb hg => ?_, fun hr => ?_⟩
  · have hnew : .act a ∈ w'.issued := by rw [hw.issued]; simp
    have hne : a.removes ≠ some g := fun hr => hg a hnew (removes_guest hr)
    rw [heff.frame g hne]
    refine h.frame g fun b hb => hg b ?_
    rw [hw.issued]
    exact List.mem_append_left _ hb
  · rcases hmem _ hg with hold | heq
    · exact heff.dead (h.forgot g hold (hseen g hs))
    · have hga : a = .forgetMachine g := by simpa using heq.symm
      exact heff.dead (ha.forgets g hga (hseen g hs))
  · rcases hmem _ hs with hold | heq
    · exact heff.dead (h.deleted s hold g hgm (hseen g hsn))
    · exact absurd heq (by simp)
  · rcases hmem _ hb with hold | heq
    · exact hmine g (h.mine b g hold hg)
    · obtain rfl : b = a := by simpa using heq
      exact hmine g (ha.mine g hg)
  · rcases hmem _ hr with hold | heq
    · exact hlast (h.released hold)
    · have hra : a = .releaseHugepages := by simpa using heq.symm
      exact hlast (ha.releases hra)

theorem Inv.quiet {w w' : World} {c : Cmd} {a : Ans c} (h : Inv topo stack commons dom₀ w) (hc : c.Quiet)
    (hl : listing c a = []) (hw : Answers w c a w') :
    Inv topo stack commons dom₀ w' ∧ w'.dom = w.dom ∧ w'.probes = w.probes := by
  have hdom : w'.dom = w.dom := by
    have hch := hw.changes
    cases c <;> first | exact absurd hc id | exact hch
  have hp : w'.probes = w.probes := by rw [hw.probes, hl, List.append_nil]
  have hmem : ∀ d, ¬ d.Quiet → d ∈ w'.issued → d ∈ w.issued := fun d hd hm => by
    rw [hw.issued, List.mem_append, List.mem_singleton] at hm
    rcases hm with hm | rfl
    · exact hm
    · exact absurd hc hd
  obtain ⟨dom', issued', probes'⟩ := w'
  obtain rfl : dom' = w.dom := hdom
  obtain rfl : probes' = w.probes := hp
  refine ⟨⟨h.starts, fun g hg => h.frame g fun b hb => hg b ?_, fun g hg => h.forgot g (hmem _ id hg),
    fun s hs => h.deleted s (hmem _ id hs), fun b g hb => h.mine b g (hmem _ id hb),
    fun hr => h.released (hmem _ id hr)⟩, rfl, rfl⟩
  show Cmd.act b ∈ issued'
  rw [show issued' = w.issued ++ [c] from hw.issued]
  exact List.mem_append_left _ hb

/-- A step came to 0. -/
structure Did (a : Action) (w w' : World) : Prop where
  effect : Effect a 0 w.dom w'.dom
  probes : w'.probes = w.probes

theorem keeps_step {m : Bool} {s : Step} {ss : List Step} {w : World} {Q : Unit → World → Prop}
    (hI : Inv topo stack commons dom₀ w) (ha : Allowed topo stack commons dom₀ s.action w)
    (hQ : ∀ w', Inv topo stack commons dom₀ w' → Did s.action w w' →
      Keeps topo stack commons dom₀ (runSteps m ss) Q w') :
    Keeps topo stack commons dom₀ (runSteps m (s :: ss)) Q w := by
  unfold Keeps runSteps
  rw [wp_bind, wp_ask]
  intro code w₁ hw₁
  have hI₁ := hI.act ha hw₁
  refine ⟨hI₁, ?_⟩
  have hp₁ : w₁.probes = w.probes := by rw [hw₁.probes]; exact List.append_nil _
  split
  · trivial
  · rename_i hcode
    obtain rfl : code = 0 := not_not.mp hcode
    have hdid : Did s.action w w₁ := ⟨hw₁.changes, hp₁⟩
    split
    · rw [wp_bind, wp_ask]
      intro tty w₂ hw₂
      obtain ⟨hI₂, hd₂, hp₂⟩ := hI₁.quiet (c := Cmd.pause) trivial rfl hw₂
      refine ⟨hI₂, ?_⟩
      split
      · exact hQ w₂ hI₂ ⟨hd₂ ▸ hdid.effect, hp₂.trans hp₁⟩
      · trivial
    · exact hQ w₁ hI₁ hdid

/-- What is kept from one state to a later one of the run of the steps. -/
structure Later (w w' : World) : Prop where
  dead : ∀ g, holdsProcess (w.dom g) = false → holdsProcess (w'.dom g) = false
  probes : w'.probes = w.probes

theorem Later.refl (w : World) : Later w w := ⟨fun _ h => h, rfl⟩

theorem Later.trans {w w' w'' : World} (h : Later w w') (h' : Later w' w'') : Later w w'' :=
  ⟨fun g hg => h'.dead g (h.dead g hg), h'.probes.trans h.probes⟩

theorem Did.later {a : Action} {w w' : World} (h : Did a w w') : Later w w' :=
  ⟨fun _ hg => h.effect.dead hg, h.probes⟩

theorem Later.mine {w w' : World} (h : Later w w') {g : Str} (hm : Mine topo stack commons w g) :
    Mine topo stack commons w' g := by
  unfold Mine LastDown at hm ⊢
  rw [h.probes]
  exact hm

theorem Later.seen {w w' : World} (h : Later w w') {g : Str} : Seen dom₀ w' g ↔ Seen dom₀ w g := by
  unfold Seen
  rw [h.probes]

/-- The steps that remove a domain leave no live one. -/
theorem keeps_removeSteps {m : Bool} {f : Str → Str} {l : Listing} {g : Str} {ss : List Step} {w : World}
    {Q : Unit → World → Prop} (hI : Inv topo stack commons dom₀ w) (hl : w.probes.head? = some l)
    (hg : Mine topo stack commons w g)
    (hQ : ∀ w', Inv topo stack commons dom₀ w' → Later w w' →
      (Seen dom₀ w g → holdsProcess (w'.dom g) = false) →
      Keeps topo stack commons dom₀ (runSteps m ss) Q w') :
    Keeps topo stack commons dom₀ (runSteps m ((removeSteps l.states g).map (Step.relabel f) ++ ss)) Q w := by
  have hundefine : ∀ w₁, Inv topo stack commons dom₀ w₁ → Later w w₁ →
      Keeps topo stack commons dom₀ (runSteps m ((undefineStep g).relabel f :: ss)) Q w₁ := by
    intro w₁ hI₁ hL₁
    have hmine : ∀ g', Action.guest (.undefine g) = some g' → Mine topo stack commons w₁ g' := by
      rintro g' ⟨⟩
      exact hL₁.mine hg
    refine keeps_step hI₁ ⟨hmine, fun g' h => absurd h (by simp [Step.relabel, undefineStep]),
      fun h => absurd h (by simp [Step.relabel, undefineStep])⟩ fun w₂ hI₂ hD => ?_
    exact hQ w₂ hI₂ (hL₁.trans hD.later) fun _ => hD.effect.stopped g rfl rfl
  unfold removeSteps
  split
  · -- the listing lacks the domain: a domain that was seen is not live
    rename_i habs
    refine hQ w hI (.refl w) fun hs => ?_
    by_contra hlive
    obtain ⟨l', hl', hne⟩ := hs (hI.starts g (by simpa using hlive))
    obtain rfl : l' = l := Option.some.inj (hl'.symm.trans hl)
    exact hne habs
  · split
    · have hmine : ∀ g', Action.guest (.destroy g) = some g' → Mine topo stack commons w g' := by
        rintro g' ⟨⟩
        exact hg
      refine keeps_step hI ⟨hmine, fun g' h => absurd h (by simp [Step.relabel, forceoffStep]),
        fun h => absurd h (by simp [Step.relabel, forceoffStep])⟩ fun w₁ hI₁ hD => ?_
      exact hundefine w₁ hI₁ hD.later
    · exact hundefine w hI (.refl w)

/-- The steps for a guest leave no live domain of it, and forget it after that. -/
theorem keeps_guestSteps {m : Bool} {f : Str → Str} {l : Listing} {g : Str} {dir : Bool} {ss : List Step}
    {w : World} {Q : Unit → World → Prop} (hI : Inv topo stack commons dom₀ w)
    (hl : w.probes.head? = some l) (hg : Mine topo stack commons w g)
    (hQ : ∀ w', Inv topo stack commons dom₀ w' → Later w w' →
      (Seen dom₀ w g → holdsProcess (w'.dom g) = false) →
      Keeps topo stack commons dom₀ (runSteps m ss) Q w') :
    Keeps topo stack commons dom₀
      (runSteps m ((guestSteps l.states g dir).map (Step.relabel f) ++ ss)) Q w := by
  unfold guestSteps
  rw [List.map_append, List.append_assoc]
  refine keeps_removeSteps hI hl hg fun w₁ hI₁ hL₁ hd₁ => ?_
  cases dir with
  | false => exact hQ w₁ hI₁ hL₁ hd₁
  | true =>
    have hmine : ∀ g', Action.guest (.forgetMachine g) = some g' → Mine topo stack commons w₁ g' := by
      rintro g' ⟨⟩
      exact hL₁.mine hg
    have hforgets : ∀ g', Action.forgetMachine g = .forgetMachine g' → Seen dom₀ w₁ g' →
        holdsProcess (w₁.dom g') = false := by
      rintro g' ⟨⟩ hs
      exact hd₁ (hL₁.seen.mp hs)
    refine keeps_step hI₁ ⟨hmine, hforgets, fun h => absurd h (by simp [Step.relabel, forgetMachineStep])⟩
      fun w₂ hI₂ hD => ?_
    exact hQ w₂ hI₂ (hL₁.trans hD.later) fun hs => hD.later.dead g (hd₁ hs)

/-- **The run of a plan**: as its guests go, none is left live. -/
theorem keeps_planned {m : Bool} {f : Str → Str} {l : Listing} {gs : List Str} {ps : List Step}
    (hp : Planned l.states gs ps) {ss : List Step} : ∀ {w : World} {Q : Unit → World → Prop},
    Inv topo stack commons dom₀ w → w.probes.head? = some l → (∀ g ∈ gs, Mine topo stack commons w g) →
    (∀ w', Inv topo stack commons dom₀ w' → Later w w' →
      (∀ g ∈ gs, Seen dom₀ w g → holdsProcess (w'.dom g) = false) →
      Keeps topo stack commons dom₀ (runSteps m ss) Q w') →
    Keeps topo stack commons dom₀ (runSteps m (ps.map (Step.relabel f) ++ ss)) Q w := by
  induction hp with
  | nil =>
    intro w Q hI _ _ hQ
    exact hQ w hI (.refl w) fun g hg => absurd hg List.not_mem_nil
  | cons g dir _ ih =>
    intro w Q hI hl hg hQ
    rw [List.map_append, List.append_assoc]
    refine keeps_guestSteps hI hl (hg g List.mem_cons_self) fun w₁ hI₁ hL₁ hd₁ => ?_
    have hl₁ : w₁.probes.head? = some l := by rw [hL₁.probes]; exact hl
    refine ih hI₁ hl₁ (fun g' hg' => hL₁.mine (hg g' (List.mem_cons_of_mem g hg'))) fun w₂ hI₂ hL₂ hd₂ => ?_
    refine hQ w₂ hI₂ (hL₁.trans hL₂) fun g' hg' hs => ?_
    rcases List.mem_cons.mp hg' with rfl | hg'
    · exact hL₂.dead g' (hd₁ hs)
    · exact hd₂ g' hg' (hL₁.seen.mpr hs)

/-! ### The whole run -/

theorem mem_commonsMembers {g : Str} (h : g ∈ commonsVms topo stack) : g ∈ commonsMembers topo := by
  obtain ⟨hall, hnot⟩ := List.mem_filter.mp h
  rcases (mem_allVms topo).mp hall with hm | hc
  · have hmem : g ∈ members topo stack := by
      simpa [members, stackMembersEffective] using hm
    exact absurd hmem (by simpa using hnot)
  · exact hc

theorem keeps_lastStackDown {lever : Bool} {l : Listing} {w : World} {Q : Bool → World → Prop}
    (hF : Fresh dom₀ w) (hp : w.probes = [l])
    (hQ : ∀ last w', Fresh dom₀ w' → w'.probes.head? = some l → (last = true → LastDown topo stack w') →
      Q last w') :
    Keeps topo stack commons dom₀ (lastStackDown topo stack commons lever) Q w := by
  unfold Keeps lastStackDown
  split
  · unfold otherStacksUp
    rw [wp_bind, wp_bind]
    refine keeps_probeStates hF fun l₂ w₁ hF₁ hp₁ => ?_
    have hprobes : w₁.probes = [l, l₂] := by rw [hp₁, hp]; rfl
    refine hQ _ w₁ hF₁ (by rw [hprobes]; rfl) fun hlast => ⟨l₂, by rw [hprobes]; rfl, ?_⟩
    simpa using hlast
  · exact hQ false w hF (by rw [hp]; rfl) fun h => absurd h Bool.false_ne_true

theorem keeps_commonsSteps {l : Listing} {destroy : Bool} {w : World} {Q : List Step → World → Prop}
    (hF : Fresh dom₀ w)
    (hQ : ∀ gs ps f w', Fresh dom₀ w' → w'.probes = w.probes → Planned l.states gs ps →
      (∀ g ∈ gs, destroy = true ∧ g ∈ commonsMembers topo) → Q (ps.map (Step.relabel f)) w') :
    Keeps topo stack commons dom₀ (commonsSteps topo stack l.states destroy) Q w := by
  unfold Keeps commonsSteps
  split
  · rename_i hd
    rw [wp_bind]
    refine keeps_planDestroy l.states _ hF fun ps ns w₁ hF₁ hp₁ hpl => ?_
    rw [wp_bind]
    refine keeps_notes ns hF₁ fun w₂ hF₂ hp₂ => ?_
    exact hQ _ ps _ w₂ hF₂ (hp₂.trans hp₁) hpl fun g hg => ⟨hd, mem_commonsMembers hg⟩
  · rw [wp_bind]
    refine keeps_fresh hF trivial fun _ w₁ hF₁ hp₁ => ?_
    have hp : w₁.probes = w.probes := by rw [hp₁]; exact List.append_nil _
    exact hQ [] [] id w₁ hF₁ hp .nil fun g hg => absurd hg List.not_mem_nil

theorem Inv.deleteRecord {w w' : World} {s : Str} {a : Unit} (h : Inv topo stack commons dom₀ w)
    (hd : ∀ g ∈ members topo stack, Seen dom₀ w g → holdsProcess (w.dom g) = false)
    (hw : Answers w (.deleteRecord s) a w') : Inv topo stack commons dom₀ w' := by
  have hdom : w'.dom = w.dom := hw.changes
  have hp : w'.probes = w.probes := by rw [hw.probes]; exact List.append_nil _
  have hL : Later w w' := ⟨fun g hg => hdom ▸ hg, hp⟩
  have hmem : ∀ b, .act b ∈ w'.issued → .act b ∈ w.issued := fun b hb => by
    simpa [hw.issued] using hb
  refine ⟨fun g hg => h.starts g (hdom ▸ hg), fun g hg => ?_, fun g hg hs => ?_, fun t _ g hg hs => ?_,
    fun b g hb hg => hL.mine (h.mine b g (hmem b hb) hg), fun hr => ?_⟩
  · rw [hdom]
    exact h.frame g fun b hb => hg b (by rw [hw.issued]; exact List.mem_append_left _ hb)
  · exact hL.dead g (h.forgot g (hmem _ hg) (hL.seen.mp hs))
  · exact hL.dead g (hd g hg (hL.seen.mp hs))
  · have hlast := h.released (hmem _ hr)
    unfold LastDown at hlast ⊢
    rw [hp]
    exact hlast

theorem keeps_settlePages {lever last : Bool} {w : World} {Q : Unit → World → Prop}
    (hI : Inv topo stack commons dom₀ w) (hlast : last = true → LastDown topo stack w)
    (hQ : ∀ w', Inv topo stack commons dom₀ w' → Q () w') :
    Keeps topo stack commons dom₀ (settlePages lever last) Q w := by
  unfold Keeps settlePages
  split
  · rename_i h
    refine keeps_step hI ⟨fun g hg => absurd hg (by simp [Action.guest]),
      fun g hg => absurd hg (by simp), fun _ => hlast h.2⟩ fun w' hI' _ => hQ w' hI'
  · split
    · rw [wp_ask]
      intro a w' hw
      have hI' := (hI.quiet (c := Cmd.note _) trivial rfl hw).1
      exact ⟨hI', hQ w' hI'⟩
    · exact hQ w hI

theorem keeps_collect {w : World} (hI : Inv topo stack commons dom₀ w) :
    Keeps topo stack commons dom₀ collect (fun _ _ => True) w := by
  unfold Keeps collect
  rw [wp_bind, wp_ask]
  intro gc w₁ hw₁
  have hI₁ := (hI.quiet (c := Cmd.gcImages) trivial rfl hw₁).1
  refine ⟨hI₁, ?_⟩
  cases gc with
  | none => trivial
  | some summary =>
    show Keeps topo stack commons dom₀ (ask (Cmd.note summary)) _ w₁
    unfold Keeps
    rw [wp_ask]
    exact fun a w₂ hw₂ => ⟨(hI₁.quiet (c := Cmd.note _) trivial rfl hw₂).1, trivial⟩

theorem keeps_finish {lever last : Bool} {w : World} (hI : Inv topo stack commons dom₀ w)
    (hd : ∀ g ∈ members topo stack, Seen dom₀ w g → holdsProcess (w.dom g) = false)
    (hlast : last = true → LastDown topo stack w) :
    Keeps topo stack commons dom₀ (finish stack lever last) (fun _ _ => True) w := by
  unfold Keeps finish
  rw [wp_bind, wp_ask]
  intro a w₁ hw₁
  have hI₁ := hI.deleteRecord hd hw₁
  have hp₁ : w₁.probes = w.probes := by rw [hw₁.probes]; exact List.append_nil _
  refine ⟨hI₁, ?_⟩
  rw [wp_bind]
  refine keeps_settlePages hI₁ (fun h => ?_) fun w₂ hI₂ => keeps_collect hI₂
  unfold LastDown
  rw [hp₁]
  exact hlast h

theorem keeps_teardownWith {m lever : Bool} {l : Listing} {ps : List Step} {w : World}
    (hF : Fresh dom₀ w) (hp : w.probes = [l]) (hpl : Planned l.states (members topo stack) ps) :
    Keeps topo stack commons dom₀ (teardownWith topo stack commons m l.states ps lever)
      (fun _ _ => True) w := by
  unfold Keeps teardownWith
  rw [wp_bind]
  refine keeps_lastStackDown hF hp fun last w₁ hF₁ hl₁ hlast₁ => ?_
  rw [wp_bind]
  refine keeps_commonsSteps hF₁ fun gs cs f w₂ hF₂ hp₂ hcs hgs => ?_
  rw [wp_bind]
  have hl₂ : w₂.probes.head? = some l := by rw [hp₂]; exact hl₁
  have hlast₂ : last = true → LastDown topo stack w₂ := fun h => by
    unfold LastDown
    rw [hp₂]
    exact hlast₁ h
  have hmine : ∀ g ∈ gs, Mine topo stack commons w₂ g := fun g hg => by
    obtain ⟨hd, hc⟩ := hgs g hg
    rcases (Bool.or_eq_true _ _).mp hd with h | h
    · exact .inr ⟨hc, .inl h⟩
    · exact .inr ⟨hc, .inr (hlast₂ h)⟩
  have hid : ps.map (Step.relabel id) = ps := List.map_id ps
  rw [← hid]
  refine keeps_planned hpl hF₂.inv hl₂ (fun g hg => .inl hg) fun w₃ hI₃ hL₃ hd₃ => ?_
  have hl₃ : w₃.probes.head? = some l := by rw [hL₃.probes]; exact hl₂
  rw [← List.append_nil (cs.map _)]
  refine keeps_planned hcs hI₃ hl₃ (fun g hg => hL₃.mine (hmine g hg)) fun w₄ hI₄ hL₄ _ => ?_
  refine keeps_finish hI₄ (fun g hg hs => ?_) fun h => ?_
  · exact hL₄.dead g (hd₃ g hg (hL₃.seen.mp (hL₄.seen.mp hs)))
  · unfold LastDown
    rw [hL₄.probes, hL₃.probes]
    exact hlast₂ h

theorem keeps_teardownRun {m : Bool} {w : World} (hF : Fresh dom₀ w) (hp : w.probes = []) :
    Keeps topo stack commons dom₀ (teardownRun topo stack commons m) (fun _ _ => True) w := by
  unfold Keeps teardownRun
  split
  · trivial
  · rw [wp_tryCatch]
    have hsteps : Keeps topo stack commons dom₀ (teardownSteps topo stack commons m) (fun _ _ => True) w := by
      unfold Keeps teardownSteps
      rw [wp_bind]
      refine keeps_probeStates hF fun l w₁ hF₁ hp₁ => ?_
      rw [wp_bind]
      refine keeps_planDestroy l.states _ hF₁ fun ps ns w₂ hF₂ hp₂ hpl => ?_
      rw [wp_bind]
      refine keeps_notes ns hF₂ fun w₃ hF₃ hp₃ => ?_
      have hprobes : w₃.probes = [l] := by rw [hp₃, hp₂, hp₁, hp]; rfl
      split
      · trivial
      · exact keeps_teardownWith hF₃ hprobes hpl
    refine wp_mono (fun _ _ _ => trivial) (fun e s _ => ?_) _ w hsteps
    cases e <;> trivial

/-- **The invariant of a teardown**, in every state that a run reaches. -/
theorem inv_reach {m : Bool} {p : Td Unit} {w : World}
    (hr : Reach Answers (teardownRun topo stack commons m, ⟨dom₀, [], []⟩) (p, w)) :
    Inv topo stack commons dom₀ w := by
  have hF : Fresh dom₀ ⟨dom₀, [], []⟩ := ⟨rfl, fun c hc => absurd hc List.not_mem_nil⟩
  exact (wp_reach hr hF.inv (keeps_teardownRun hF rfl)).1

/-! ### The laws -/

/-- **A stack is forgotten when it is gone**: once its record is deleted no
member is live, and once a guest's machine is forgotten its domain is not
live, as far as the first probe lists the domain, if that is live. -/
theorem forgets_when_gone {m : Bool} {p : Td Unit} {w : World}
    (hr : Reach Answers (teardownRun topo stack commons m, ⟨dom₀, [], []⟩) (p, w)) :
    (.deleteRecord stack ∈ w.issued →
      ∀ g ∈ members topo stack, Seen dom₀ w g → holdsProcess (w.dom g) = false) ∧
    ∀ g, .act (.forgetMachine g) ∈ w.issued → Seen dom₀ w g → holdsProcess (w.dom g) = false :=
  ⟨(inv_reach hr).deleted stack, (inv_reach hr).forgot⟩

/-- A stack that the second probe shows as up is counted. -/
theorem not_lastDown {T : Str} {cfg : StackCfg} {t : Str} {w : World}
    (hT : topo.labStacks.get? T = some cfg) (hne : T ≠ stack) (hcl : cfg.cluster ≠ none)
    (ht : t ∈ members topo T) (hup : ∀ l, w.probes[1]? = some l → isLive l.states t) :
    ¬ LastDown topo stack w := by
  rintro ⟨l, hl, hnone⟩
  have hup' := hup l hl
  have hmem : (T, cfg) ∈ topo.labStacks.items := Dict.get?_eq_some.mp hT
  have hcount : countsAsUp topo l.states stack (T, cfg) = true := by
    have hany : ((stackMembers topo T).getD []).any (isLive l.states) = true :=
      List.any_eq_true.mpr ⟨t, ht, hup'⟩
    unfold countsAsUp
    exact decide_eq_true ⟨hne, hcl, hany⟩
  exact absurd (List.any_eq_true.mpr ⟨_, hmem, hcount⟩) (by rw [hnone]; simp)

/-- **A teardown takes what is its own**: while another stack has a live
member, which the second probe shows, it takes members and, where asked to,
commons, and leaves the other domains and the huge pages. -/
theorem takes_own {m : Bool} {p : Td Unit} {w : World} {T : Str} {cfg : StackCfg} {t : Str}
    (hr : Reach Answers (teardownRun topo stack commons m, ⟨dom₀, [], []⟩) (p, w))
    (hT : topo.labStacks.get? T = some cfg) (hne : T ≠ stack) (hcl : cfg.cluster ≠ none)
    (ht : t ∈ members topo T) (hlive : holdsProcess (dom₀ t) = true)
    (hread : ∀ l, w.probes[1]? = some l → isLive l.states t = holdsProcess (dom₀ t)) :
    (∀ a g, .act a ∈ w.issued → a.guest = some g →
      g ∈ members topo stack ∨ commons = true ∧ g ∈ commonsMembers topo) ∧
    (∀ g, g ∉ members topo stack → ¬ (commons = true ∧ g ∈ commonsMembers topo) → w.dom g = dom₀ g) ∧
    .act .releaseHugepages ∉ w.issued := by
  have hI := inv_reach hr
  have hup : ¬ LastDown topo stack w :=
    not_lastDown hT hne hcl ht fun l hl => (hread l hl).trans hlive
  have hmine : ∀ a g, .act a ∈ w.issued → a.guest = some g →
      g ∈ members topo stack ∨ commons = true ∧ g ∈ commonsMembers topo := by
    intro a g ha hg
    rcases hI.mine a g ha hg with hm | ⟨hc, hcom | hlast⟩
    · exact .inl hm
    · exact .inr ⟨hcom, hc⟩
    · exact absurd hlast hup
  refine ⟨hmine, fun g hm hc => hI.frame g fun a ha hg => ?_, fun hrel => hup (hI.released hrel)⟩
  rcases hmine a g ha hg with h | h
  · exact hm h
  · exact hc h

end

/-! ### A lab of two stacks -/

/-- Two stacks that share a SAN target, and the host of the commons. -/
def labTopology : Topology where
  nodes := .empty
  groups := .ofList [("san_a".toList, ["san-a".toList]), ("pcmk_a".toList, ["pcmk-a1".toList]),
    ("pdrbd_a".toList, ["pdrbd-a1".toList]), ("obs_box".toList, ["obs".toList])]
  labStacks := .ofList
    [("pcmk".toList, ⟨some "ubuntu".toList, some "pcmk_a".toList, ["san_a".toList, "pcmk_a".toList], []⟩),
      ("pdrbd".toList, ⟨some "ubuntu".toList, some "pdrbd_a".toList, ["san_a".toList, "pdrbd_a".toList], []⟩)]
  commons := ["obs_box".toList]
  memoryBacking := some "hugepages".toList

/-- All domains run. -/
def labListing : Listing where
  rc := 0
  lines := [" Id Name State".toList, "---".toList, " 1 lab_san-a running".toList,
    " 2 lab_pcmk-a1 running".toList, " 3 lab_pdrbd-a1 running".toList, " 4 lab_obs running".toList]

def labWorld : World := ⟨fun _ => some "running".toList, [], []⟩

/-- The answer to a command, where the actions of `bad` fail and do nothing. -/
def labAnswer (bad : Action → Bool) : (c : Cmd) → Ans c
  | .listAll => labListing
  | .machineDir _ => true
  | .act a => if bad a then 1 else 0
  | .pause => true
  | .note _ => ()
  | .deleteRecord _ => ()
  | .gcImages => none

/-- The domains after an action. -/
def labAct (bad : Action → Bool) (dom : Str → Option Str) (a : Action) (g : Str) : Option Str :=
  if bad a = false ∧ a.removes = some g then none else dom g

/-- The domains after a command. -/
def labDom (bad : Action → Bool) (dom : Str → Option Str) : Cmd → Str → Option Str
  | .act a => labAct bad dom a
  | _ => dom

def labStep (bad : Action → Bool) (w : World) (c : Cmd) : Ans c × World :=
  (labAnswer bad c, ⟨labDom bad w.dom c, w.issued ++ [c], w.probes ++ listing c (labAnswer bad c)⟩)

theorem labAct_effect (bad : Action → Bool) (dom : Str → Option Str) (a : Action) (code : ℤ)
    (hcode : code = 0 → bad a = false) : Effect a code dom (labAct bad dom a) where
  frame g hg := if_neg fun h => hg h.2
  starts g hg := by
    unfold labAct at hg
    split at hg
    · exact absurd hg Bool.false_ne_true
    · exact hg
  stopped g hg h0 := by
    unfold labAct
    rw [if_pos ⟨hcode h0, hg⟩]
    rfl

theorem labStep_answers (bad : Action → Bool) (w : World) (c : Cmd) :
    Answers w c (labStep bad w c).1 (labStep bad w c).2 := by
  refine ⟨?_, rfl, rfl⟩
  cases c with
  | act a =>
    refine labAct_effect bad w.dom a _ fun h0 => ?_
    cases hb : bad a with
    | false => rfl
    | true =>
      have h1 : (labStep bad w (.act a)).1 = (1 : ℤ) := if_pos hb
      exact absurd (h1.symm.trans h0) Int.one_ne_zero
  | _ => rfl

/-- The teardown of `pcmk` in this lab. -/
def labRun (bad : Action → Bool) (commons : Bool) : Cfg World Cmd Ans Halt Unit :=
  (teardownRun labTopology "pcmk".toList commons false).exec (labStep bad) labWorld

theorem reach_labRun (bad : Action → Bool) (commons : Bool) :
    Reach Answers (teardownRun labTopology "pcmk".toList commons false, labWorld) (labRun bad commons) := by
  have hstep : ∀ w c, (fun _ : World => True) w →
      Answers w c (labStep bad w c).1 (labStep bad w c).2 ∧ (fun _ : World => True) (labStep bad w c).2 :=
    fun w c _ => ⟨labStep_answers bad w c, trivial⟩
  exact reach_exec hstep _ labWorld trivial

theorem forgets_when_gone_lab :
    .deleteRecord "pcmk".toList ∈ (labRun (fun _ => false) false).2.issued ∧
      ∀ g ∈ members labTopology "pcmk".toList,
        holdsProcess ((labRun (fun _ => false) false).2.dom g) = false := by
  have hlaw := forgets_when_gone (reach_labRun (fun _ => false) false)
  have hdel : .deleteRecord "pcmk".toList ∈ (labRun (fun _ => false) false).2.issued := by decide +kernel
  have hlist : ∀ g ∈ members labTopology "pcmk".toList, classify labListing.states g ≠ .absent := by
    decide +kernel
  have hhead : (labRun (fun _ => false) false).2.probes.head? = some labListing := by decide +kernel
  exact ⟨hdel, fun g hg => hlaw.1 hdel g hg fun _ => ⟨labListing, hhead, hlist g hg⟩⟩

/-- A later guest that cannot be stopped stays live beside a machine that is
forgotten. -/
theorem forgets_before_gone :
    let r := labRun (fun a => a = .destroy "pcmk-a1".toList) false
    Reach Answers (teardownRun labTopology "pcmk".toList false false, labWorld) r ∧
      .act (.forgetMachine "san-a".toList) ∈ r.2.issued ∧
      "pcmk-a1".toList ∈ members labTopology "pcmk".toList ∧
      holdsProcess (r.2.dom "pcmk-a1".toList) = true :=
  ⟨reach_labRun _ _, by decide +kernel, by decide +kernel, by decide +kernel⟩

theorem takes_own_lab :
    .act .releaseHugepages ∉ (labRun (fun _ => false) true).2.issued ∧
      (labRun (fun _ => false) true).2.dom "pdrbd-a1".toList = some "running".toList := by
  have hread : ∀ l, (labRun (fun _ => false) true).2.probes[1]? = some l →
      isLive l.states "pdrbd-a1".toList = holdsProcess (labWorld.dom "pdrbd-a1".toList) := by
    have hsecond : (labRun (fun _ => false) true).2.probes[1]? = some labListing := by decide +kernel
    rintro l hl
    obtain rfl := Option.some.inj (hsecond.symm.trans hl)
    decide +kernel
  have hT : labTopology.labStacks.get? "pdrbd".toList =
      some ⟨some "ubuntu".toList, some "pdrbd_a".toList, ["san_a".toList, "pdrbd_a".toList], []⟩ := rfl
  have ht : "pdrbd-a1".toList ∈ members labTopology "pdrbd".toList := by decide +kernel
  have hlaw := takes_own (reach_labRun (fun _ => false) true) hT (by decide) (by decide) ht
    (by decide +kernel) hread
  exact ⟨hlaw.2.2, hlaw.2.1 _ (by decide +kernel) (by decide +kernel)⟩

/-- A member that two stacks share is destroyed under the other. -/
theorem takes_shared_member :
    let r := labRun (fun _ => false) false
    Reach Answers (teardownRun labTopology "pcmk".toList false false, labWorld) r ∧
      holdsProcess (labWorld.dom "pdrbd-a1".toList) = true ∧
      "pdrbd-a1".toList ∈ members labTopology "pdrbd".toList ∧
      "san-a".toList ∈ members labTopology "pdrbd".toList ∧
      .act (.destroy "san-a".toList) ∈ r.2.issued ∧ r.2.dom "san-a".toList = none :=
  ⟨reach_labRun _ _, by decide +kernel, by decide +kernel, by decide +kernel, by decide +kernel,
    by decide +kernel⟩

end Teardown
end Lab
end MqResiliency
